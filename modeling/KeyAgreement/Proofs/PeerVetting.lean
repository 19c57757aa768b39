import KeyAgreement.Proofs.DerivationOrder

/-!
# A peer's token, vetted early or late

A peer's token can be vetted when it arrives, and it is vetted again whenever a secret is derived
with it. The derivation looks at the own token in between, so the two could disagree on what is
wrong; with an own token that can be read they never do. What the vetting refuses, the derivation
refuses with the same fault, and what the vetting lets pass, the derivation can only fail on later,
for want of a usable key or common value.

The main statement is `outcome_derive_of_decode`.
-/

namespace KeyAgreement

namespace PublicValue

variable {G : ModpGroup} {token : String}

theorem decode_of_hasStranger (h : Token.HasStranger token) :
    decode G token = .error .invalidCharset := by
  have hs : ¬ Token.isSymbolic token = true := by
    rw [Token.isSymbolic_iff]
    exact not_not_intro h
  rw [decode, if_neg hs]

theorem decode_of_decode_error {cause : Base64.Fault} (h : ¬ Token.HasStranger token)
    (hd : Token.decode token = .error cause) :
    decode G token = .error (.encoding (.base64 cause)) := by
  rw [decode, if_pos (Token.isSymbolic_iff.2 h), hd]

theorem decode_of_denotes {y : ℕ} (h : Token.Denotes token y) :
    decode G token = if G.IsPublic y then .ok y else .error .invalidPublicKey := by
  obtain ⟨hs, bytes, hd, rfl⟩ := h
  rw [decode, if_pos (Token.isSymbolic_iff.2 hs), hd]

end PublicValue

namespace SharedSecret

variable {G : ModpGroup} {own peer : String} {x y : ℕ} {r : Logged (Except Fault String)}

/-- An outcome that the peer's token is not to blame for. -/
def IsPastPeer (outcome : Except Fault String) : Prop :=
  (∃ secret, outcome = .ok secret) ∨ ∃ cause, outcome = .error (.derivation cause)

theorem NumbersLead.outcome_of_not_isPublic (h : NumbersLead G x y r) (hy : ¬ G.IsPublic y) :
    r.outcome = .error .invalidPublicKey := by
  rw [← h.eq_deriveFrom, deriveFrom, if_neg hy]

theorem NumbersLead.isPastPeer (h : NumbersLead G x y r) (hy : G.IsPublic y) :
    IsPastPeer r.outcome := by
  rw [ModpGroup.isPublic_iff] at hy
  cases h with
  | refusedPeer hpeer => exact absurd hy hpeer
  | zeroExponent => exact Or.inr ⟨_, rfl⟩
  | wideExponent => exact Or.inr ⟨_, rfl⟩
  | refusedKey => exact Or.inr ⟨_, rfl⟩
  | degenerate => exact Or.inr ⟨_, rfl⟩
  | secret => exact Or.inl ⟨_, rfl⟩

/-- With an own token that can be read, the vetting and the derivation part ways only after the
peer's value is accepted. -/
theorem TokensLead.vetted (h : TokensLead G own peer r) (hown : Token.Denotes own x) :
    (∃ e, PublicValue.decode G peer = .error e ∧ r.outcome = .error e) ∨
      ∃ y, PublicValue.decode G peer = .ok y ∧ IsPastPeer r.outcome := by
  cases h with
  | charset hstranger =>
    have hpeer : Token.HasStranger peer := hstranger.resolve_left hown.1
    exact Or.inl ⟨_, PublicValue.decode_of_hasStranger hpeer, rfl⟩
  | peerToken hnone hpeer =>
    exact Or.inl ⟨_, PublicValue.decode_of_decode_error (not_or.1 hnone).2 hpeer, rfl⟩
  | ownToken _ _ hfail =>
    obtain ⟨-, bytes, hd, -⟩ := hown
    cases hfail.symm.trans hd
  | @numbers x' y _ hpeer _ hnumbers =>
    have hdecode := PublicValue.decode_of_denotes (G := G) hpeer
    by_cases hy : G.IsPublic y
    · rw [if_pos hy] at hdecode
      exact Or.inr ⟨y, hdecode, hnumbers.isPastPeer hy⟩
    · rw [if_neg hy] at hdecode
      exact Or.inl ⟨_, hdecode, hnumbers.outcome_of_not_isPublic hy⟩

/-- A derivation that succeeds could read both tokens. -/
theorem TokensLead.exists_numbersLead {secret : String} (h : TokensLead G own peer r)
    (hr : r.outcome = .ok secret) :
    ∃ x y, Token.Denotes own x ∧ Token.Denotes peer y ∧ NumbersLead G x y r := by
  cases h with
  | charset => cases hr
  | peerToken => cases hr
  | ownToken => cases hr
  | numbers hpeer hown hnumbers => exact ⟨_, _, hown, hpeer, hnumbers⟩

/-- With an own token that can be read, a derivation ends with the very fault that the peer's token
is refused with, and with no fault of the peer's token if it is accepted. Whatever the own token is,
a secret is derived only with peer tokens that are accepted. -/
theorem outcome_derive_of_decode (G : ModpGroup) {own : String} {ownBytes : List UInt8}
    (hsym : Token.isSymbolic own = true) (hdec : Token.decode own = .ok ownBytes) (peer : String) :
    (∀ e, PublicValue.decode G peer = .error e → (derive G own peer).outcome = .error e) ∧
    (∀ y, PublicValue.decode G peer = .ok y →
      (∃ secret, (derive G own peer).outcome = .ok secret) ∨
        ∃ cause, (derive G own peer).outcome = .error (.derivation cause)) ∧
    ∀ own' secret, (derive G own' peer).outcome = .ok secret →
      ∃ y, PublicValue.decode G peer = .ok y := by
  have hvetted := (tokensLead_derive G own peer).vetted (Token.denotes_of_decode hsym hdec rfl)
  refine ⟨?_, ?_, ?_⟩
  · intro e he
    rcases hvetted with ⟨e', he', hout⟩ | ⟨y, hy, -⟩
    · obtain rfl := Except.error.inj (he.symm.trans he')
      exact hout
    · cases he.symm.trans hy
  · intro y hy
    rcases hvetted with ⟨e, he, -⟩ | ⟨y', -, hpast⟩
    · cases he.symm.trans hy
    · exact hpast
  · intro own' secret hsecret
    have hlead := tokensLead_derive G own' peer
    obtain ⟨x', -, hown', -, -⟩ := hlead.exists_numbersLead hsecret
    rcases hlead.vetted hown' with ⟨e, -, hout⟩ | ⟨y, hy, -⟩
    · cases hsecret.symm.trans hout
    · exact ⟨y, hy⟩

/-- Modulo 15 and with the own token of zero: a peer's token of one symbol too many is refused for
what base64 makes of it, and one that stands for 3 is accepted and leaves the own key to blame. -/
theorem outcome_derive_of_decode_mod15 :
    Token.isSymbolic "AA" = true ∧ Token.decode "AA" = .ok [0] ∧
      PublicValue.decode .mod15 "AAAAB" = .error (.encoding (.base64 (.invalidSymbol 61 5))) ∧
      (derive .mod15 "AA" "AAAAB").outcome
        = .error (.encoding (.base64 (.invalidSymbol 61 5))) ∧
      PublicValue.decode .mod15 "Aw" = .ok 3 ∧
      ((∃ secret, (derive .mod15 "AA" "Aw").outcome = .ok secret) ∨
        ∃ cause, (derive .mod15 "AA" "Aw").outcome = .error (.derivation cause)) := by
  have hsym : Token.isSymbolic "AA" = true := rfl
  have hdec : Token.decode "AA" = .ok [0] := rfl
  have hrefused : PublicValue.decode .mod15 "AAAAB"
      = .error (.encoding (.base64 (.invalidSymbol 61 5))) := rfl
  have haccepted : PublicValue.decode .mod15 "Aw" = .ok 3 := rfl
  exact ⟨hsym, hdec, hrefused,
    (outcome_derive_of_decode .mod15 hsym hdec "AAAAB").1 _ hrefused, haccepted,
    (outcome_derive_of_decode .mod15 hsym hdec "Aw").2.1 _ haccepted⟩

end SharedSecret

end KeyAgreement
