import KeyAgreement.Proofs.Exchange

/-!
# The order of a derivation

A derivation looks at one thing after another, and the first that is not as it should be decides
what comes of it and what is reported. `TokensLead` and `NumbersLead` write this order down as
rules, each with everything that was looked at before it, and say what the tokens and numbers must
be without a word on how they are read or calculated.

The main statement is `derive_eq_iff_tokensLead`: a derivation ends as the rules say and in no other
way, and once both tokens stand for numbers nothing else of them matters.
-/

namespace KeyAgreement

namespace SharedSecret

variable {G : ModpGroup} {own peer : String} {x y : ℕ} {r : Logged (Except Fault String)}

/-- What an own exponent `x` and a peer's value `y` lead to. -/
inductive NumbersLead (G : ModpGroup) (x y : ℕ) : Logged (Except Fault String) → Prop where
  | refusedPeer (hy : ¬ (1 < y ∧ y < G.modulus - 1)) :
      NumbersLead G x y ⟨.error .invalidPublicKey, [.peerRefused y.size]⟩
  | zeroExponent (hy : 1 < y ∧ y < G.modulus - 1) (hx : x = 0) :
      NumbersLead G x y ⟨.error (.derivation (.ownKey .zeroExponent)), []⟩
  /-- The fault names the least number of bytes that the exponent fits into. -/
  | wideExponent {needed : ℕ} (hy : 1 < y ∧ y < G.modulus - 1) (hx : 256 ^ G.byteLength ≤ x)
      (hneeded : ∀ k, needed ≤ k ↔ x < 256 ^ k) :
      NumbersLead G x y
        ⟨.error (.derivation (.ownKey (.encoding (.tooWide ⟨needed, G.byteLength⟩)))), []⟩
  | refusedKey (hy : 1 < y ∧ y < G.modulus - 1) (hx : 0 < x ∧ x < 256 ^ G.byteLength)
      (hkey : ¬ (1 < G.generator ^ x % G.modulus ∧ G.generator ^ x % G.modulus < G.modulus - 1)) :
      NumbersLead G x y ⟨.error (.derivation (.ownKey .degeneratePublicValue)), []⟩
  | degenerate (hy : 1 < y ∧ y < G.modulus - 1) (hx : 0 < x ∧ x < 256 ^ G.byteLength)
      (hkey : 1 < G.generator ^ x % G.modulus ∧ G.generator ^ x % G.modulus < G.modulus - 1)
      (hshared : y ^ x % G.modulus = 0 ∨ y ^ x % G.modulus = 1 ∨
        y ^ x % G.modulus = G.modulus - 1) :
      NumbersLead G x y ⟨.error (.derivation .degenerateShared), []⟩
  /-- The common value is taken in its shortest form, the one without zero bytes in front. -/
  | secret {s : List UInt8} (hy : 1 < y ∧ y < G.modulus - 1) (hx : 0 < x ∧ x < 256 ^ G.byteLength)
      (hkey : 1 < G.generator ^ x % G.modulus ∧ G.generator ^ x % G.modulus < G.modulus - 1)
      (hshared : ¬ (y ^ x % G.modulus = 0 ∨ y ^ x % G.modulus = 1 ∨
        y ^ x % G.modulus = G.modulus - 1))
      (hs : BigEndian.toNat s = y ^ x % G.modulus) (hhead : s.head? ≠ some 0)
      (hlen : 1 ≤ s.length ∧ s.length ≤ G.byteLength) :
      NumbersLead G x y ⟨.ok (token s), [.secretDerived s.length]⟩

/-- What two tokens lead to. Of two that stand for nothing the peer's counts. -/
inductive TokensLead (G : ModpGroup) (own peer : String) : Logged (Except Fault String) → Prop where
  | charset (h : Token.HasStranger own ∨ Token.HasStranger peer) :
      TokensLead G own peer ⟨.error .invalidCharset, [.charsetRefused]⟩
  | peerToken {cause : Base64.Fault} (h : ¬ (Token.HasStranger own ∨ Token.HasStranger peer))
      (hpeer : Token.decode peer = .error cause) :
      TokensLead G own peer ⟨.error (.encoding (.base64 cause)), []⟩
  | ownToken {y : ℕ} {cause : Base64.Fault} (h : ¬ Token.HasStranger own)
      (hpeer : Token.Denotes peer y) (hown : Token.decode own = .error cause) :
      TokensLead G own peer ⟨.error (.encoding (.base64 cause)), []⟩
  | numbers {x y : ℕ} {r : Logged (Except Fault String)} (hpeer : Token.Denotes peer y)
      (hown : Token.Denotes own x) (h : NumbersLead G x y r) : TokensLead G own peer r

/-! ## Numbers -/

/-- An exponent that passes the checks on the own key makes a key pair. -/
theorem exists_isOf (hx : 0 < x ∧ x < 256 ^ G.byteLength)
    (hkey : 1 < G.generator ^ x % G.modulus ∧ G.generator ^ x % G.modulus < G.modulus - 1) :
    ∃ own : KeyPair, own.IsOf G ∧ own.exponent = x := by
  have hbytes := KeyPair.keyBytes_eq_ok_iff.2 ⟨hx.2, rfl⟩
  exact ⟨_, KeyPair.ofExponent_eq_ok_iff.1
    (KeyPair.ofExponent_eq hbytes (ModpGroup.isPublic_publicValue_iff.2 hkey))⟩

theorem deriveFrom_of_error {cause : KeyFault} (hy : G.IsPublic y)
    (h : KeyPair.ofExponent G x = .error cause) :
    deriveFrom G x y = ⟨.error (.derivation (.ownKey cause)), []⟩ := by
  rw [deriveFrom, if_pos hy, h]
  rfl

theorem NumbersLead.eq_deriveFrom (h : NumbersLead G x y r) : deriveFrom G x y = r := by
  cases h with
  | refusedPeer hy =>
    rw [← ModpGroup.isPublic_iff] at hy
    rw [deriveFrom, if_neg hy, BigEndian.bitLength_eq_size]
  | zeroExponent hy hx =>
    rw [hx]
    exact deriveFrom_of_error (ModpGroup.isPublic_iff.2 hy) (KeyPair.ofExponent_zero G)
  | @wideExponent needed hy hx hneeded =>
    have hpos : 0 < 256 ^ G.byteLength := Nat.pow_pos (by decide)
    obtain rfl : BigEndian.minimalWidth x = needed :=
      BigEndian.minimalWidth_eq (by omega) hneeded
    exact deriveFrom_of_error (ModpGroup.isPublic_iff.2 hy) (KeyPair.ofExponent_of_le hx)
  | refusedKey hy hx hkey =>
    rw [← ModpGroup.isPublic_publicValue_iff] at hkey
    exact deriveFrom_of_error (ModpGroup.isPublic_iff.2 hy)
      (KeyPair.ofExponent_of_not_isPublic (Nat.pos_iff_ne_zero.1 hx.1) hx.2 hkey)
  | degenerate hy hx hkey hshared =>
    obtain ⟨own, hown, rfl⟩ := exists_isOf hx hkey
    rw [← ModpGroup.power_eq, ← isDegenerate_iff] at hshared
    rw [deriveFrom_eq hown (ModpGroup.isPublic_iff.2 hy), if_pos hshared]
    rfl
  | secret hy hx hkey hshared hs hhead hlen =>
    obtain ⟨own, hown, rfl⟩ := exists_isOf hx hkey
    rw [← ModpGroup.power_eq] at hs
    rw [← ModpGroup.power_eq, ← isDegenerate_iff] at hshared
    have h0 : G.power y own.exponent ≠ 0 := by
      intro h0
      exact hshared (isDegenerate_iff.2 (Or.inl h0))
    rw [deriveFrom_eq hown (ModpGroup.isPublic_iff.2 hy), if_neg hshared,
      BigEndian.eq_minimal_of_head h0 hs hhead]

theorem exists_numbersLead (G : ModpGroup) (x y : ℕ) : ∃ r, NumbersLead G x y r := by
  -- the checks in their order; each rule asks that those before it have passed
  by_cases hpeer : ¬ (1 < y ∧ y < G.modulus - 1)
  · exact ⟨_, .refusedPeer hpeer⟩
  have hy := Decidable.not_not.1 hpeer
  by_cases h0 : x = 0
  · exact ⟨_, .zeroExponent hy h0⟩
  by_cases hwide : 256 ^ G.byteLength ≤ x
  · exact ⟨_, .wideExponent hy hwide fun k => BigEndian.byteLength_le_iff⟩
  have hx : 0 < x ∧ x < 256 ^ G.byteLength := ⟨Nat.pos_of_ne_zero h0, Nat.lt_of_not_le hwide⟩
  by_cases hown : ¬ (1 < G.generator ^ x % G.modulus ∧
      G.generator ^ x % G.modulus < G.modulus - 1)
  · exact ⟨_, .refusedKey hy hx hown⟩
  have hkey := Decidable.not_not.1 hown
  by_cases hshared : y ^ x % G.modulus = 0 ∨ y ^ x % G.modulus = 1 ∨
      y ^ x % G.modulus = G.modulus - 1
  · exact ⟨_, .degenerate hy hx hkey hshared⟩
  · have hne : y ^ x % G.modulus ≠ 0 := fun h => hshared (Or.inl h)
    have hlen := G.lt_of_lt_modulus (G.power_lt y x)
    rw [ModpGroup.power_eq, ← BigEndian.minimalWidth_le_iff (.inl G.byteLength_pos)] at hlen
    refine ⟨_, .secret hy hx hkey hshared (BigEndian.toNat_minimal _)
      (BigEndian.head_minimal_ne hne) ?_⟩
    rw [BigEndian.length_minimal]
    exact ⟨Nat.le_max_left .., hlen⟩

/-! ## Tokens -/

theorem TokensLead.eq_derive (h : TokensLead G own peer r) : derive G own peer = r := by
  cases h with
  | charset h =>
    have hs : ¬ (Token.isSymbolic own && Token.isSymbolic peer) = true := by
      rw [Bool.and_eq_true, Token.isSymbolic_iff, Token.isSymbolic_iff]
      rintro ⟨hos, hps⟩
      exact h.elim hos hps
    rw [derive, if_neg hs]
  | peerToken h hpeer =>
    obtain ⟨hos, hps⟩ := not_or.1 h
    simp only [derive, Token.isSymbolic_iff.2 hos, Token.isSymbolic_iff.2 hps, hpeer,
      Bool.and_self, if_true]
    rfl
  | ownToken h hpeer hown =>
    obtain ⟨hps, peerBytes, hpd, -⟩ := hpeer
    simp only [derive, Token.isSymbolic_iff.2 h, Token.isSymbolic_iff.2 hps, hpd, hown,
      Bool.and_self, if_true]
    rfl
  | numbers hpeer hown h =>
    rw [derive_of_denotes hown hpeer]
    exact h.eq_deriveFrom

theorem exists_tokensLead (G : ModpGroup) (own peer : String) : ∃ r, TokensLead G own peer r := by
  by_cases h : Token.HasStranger own ∨ Token.HasStranger peer
  · exact ⟨_, .charset h⟩
  obtain ⟨hos, hps⟩ := not_or.1 h
  cases hpeer : Token.decode peer with
  | error cause => exact ⟨_, .peerToken h hpeer⟩
  | ok peerBytes =>
    have hy : Token.Denotes peer (BigEndian.toNat peerBytes) := ⟨hps, peerBytes, hpeer, rfl⟩
    cases hown : Token.decode own with
    | error cause => exact ⟨_, .ownToken hos hy hown⟩
    | ok ownBytes =>
      obtain ⟨r, hr⟩ := exists_numbersLead G (BigEndian.toNat ownBytes) (BigEndian.toNat peerBytes)
      exact ⟨r, .numbers hy ⟨hos, ownBytes, hown, rfl⟩ hr⟩

theorem tokensLead_derive (G : ModpGroup) (own peer : String) :
    TokensLead G own peer (derive G own peer) := by
  obtain ⟨r, hr⟩ := exists_tokensLead G own peer
  rw [hr.eq_derive]
  exact hr

/-- A derivation ends as the rules say, with their events and no others, and in no other way. Tokens
that stand for the same numbers are not told apart. The faults of the own key keep their wording
inside the fault of the derivation, refusals are warnings, and the only other event tells how long
the common value is. -/
theorem derive_eq_iff_tokensLead (G : ModpGroup) (own peer : String) :
    (∀ r, derive G own peer = r ↔ TokensLead G own peer r) ∧
    (∀ own' peer' x y, Token.Denotes own x → Token.Denotes peer y → Token.Denotes own' x →
      Token.Denotes peer' y → derive G own peer = derive G own' peer') ∧
    (Fault.derivation (.ownKey .zeroExponent)).message
      = "Derive error: Keygen error: private exponent is zero" ∧
    (∀ needed width, (Fault.derivation (.ownKey (.encoding (.tooWide ⟨needed, width⟩)))).message
      = "Derive error: Keygen error: Encoding error: "
        ++ s!"value needs {needed} bytes, buffer holds {width}") ∧
    (Fault.derivation (.ownKey .degeneratePublicValue)).message
      = "Derive error: Keygen error: private exponent yields a degenerate public value" ∧
    (Fault.derivation .degenerateShared).message = "Derive error: degenerate shared value" ∧
    Event.charsetRefused.level = .warn ∧
    (∀ bits, (Event.peerRefused bits).level = .warn ∧
      (Event.peerRefused bits).fields = [("peer_bits", .number bits)]) ∧
    (∀ length, (Event.secretDerived length).level = .debug ∧
      (Event.secretDerived length).fields = [("shared_len", .number length)]) := by
  refine ⟨?_, ?_, rfl, ?_, rfl, rfl, rfl, fun _ => ⟨rfl, rfl⟩, fun _ => ⟨rfl, rfl⟩⟩
  · intro r
    constructor
    · rintro rfl
      exact tokensLead_derive G own peer
    · exact TokensLead.eq_derive
  · intro own' peer' x y hown hpeer hown' hpeer'
    rw [derive_of_denotes hown hpeer, derive_of_denotes hown' hpeer']
  · intro needed width
    show "Derive error: " ++ ("Keygen error: " ++ ("Encoding error: " ++
      s!"value needs {needed} bytes, buffer holds {width}")) = _
    rw [← String.append_assoc, ← String.append_assoc]
    rfl

/-- Modulo 15 the exponent 2 and the peer's value 3 lead to the secret of 9, also when the tokens
have zero bytes in front and the marker is missing. The exponent 0 is not looked at when the peer's
value is 1. -/
theorem derive_eq_iff_tokensLead_mod15 :
    derive .mod15 "Ag" "Aw" = ⟨.ok (token [9]), [.secretDerived 1]⟩ ∧
      Token.Denotes "Ag" 2 ∧ Token.Denotes "Aw" 3 ∧ Token.Denotes "AAI" 2 ∧
      Token.Denotes "AAAD" 3 ∧ derive .mod15 "Ag" "Aw" = derive .mod15 "AAI" "AAAD" ∧
      derive .mod15 "AA" "AQ" = ⟨.error .invalidPublicKey, [.peerRefused 1]⟩ := by
  have hx : Token.Denotes "Ag" 2 := ⟨Token.isSymbolic_iff.1 (by decide), [2], rfl, rfl⟩
  have hy : Token.Denotes "Aw" 3 := ⟨Token.isSymbolic_iff.1 (by decide), [3], rfl, rfl⟩
  have hx' : Token.Denotes "AAI" 2 := ⟨Token.isSymbolic_iff.1 (by decide), [0, 2], rfl, rfl⟩
  have hy' : Token.Denotes "AAAD" 3 :=
    ⟨Token.isSymbolic_iff.1 (by decide), [0, 0, 3], rfl, rfl⟩
  have hzero : Token.Denotes "AA" 0 := ⟨Token.isSymbolic_iff.1 (by decide), [0], rfl, rfl⟩
  have hone : Token.Denotes "AQ" 1 := ⟨Token.isSymbolic_iff.1 (by decide), [1], rfl, rfl⟩
  obtain ⟨hsecret, hsame, -⟩ := derive_eq_iff_tokensLead .mod15 "Ag" "Aw"
  obtain ⟨hrefused, -⟩ := derive_eq_iff_tokensLead .mod15 "AA" "AQ"
  refine ⟨(hsecret _).2 (.numbers hy hx ?_), hx, hy, hx', hy',
    hsame "AAI" "AAAD" 2 3 hx hy hx' hy', (hrefused _).2 (.numbers hone hzero ?_)⟩
  · exact .secret (by decide) (by decide) (by decide) (by decide) (by decide) (by decide)
      (by decide)
  · exact .refusedPeer (by decide)

end SharedSecret

end KeyAgreement
