import KeyAgreement.ModpGroup.Standard
import KeyAgreement.Proofs.Generating
import KeyAgreement.Proofs.PeerVetting

/-!
# What the log tells of secrets

A key pair shows in the log by the length of its public token, which is the same for all pairs of a
group. A derived secret shows by the length of the common value, and that is the length of its
shortest form: it is short by a byte when the common value happens to begin with a zero byte. So two
private tokens can be told apart by the log when they lead to common values of different lengths
with one peer, and by nothing else.

The main statement is `events_derive_eq_iff`; the standard group is no exception, as
`events_derive_ne_standard` shows.
-/

namespace KeyAgreement

namespace KeyPair

variable {G : ModpGroup} {σ : Type} {source : Entropy σ} {state : σ} {keys : KeyTokens}

/-- A drawn pair is reported with a length that the group alone decides. -/
theorem events_generate (h : (generate G source state).1.outcome = .ok keys) :
    (generate G source state).1.events = [.keyPairGenerated (Token.length G.byteLength)] := by
  cases hdraw : (draw G source state).1 with
  | error cause =>
    rw [generate_of_draw_error hdraw] at h
    cases h
  | ok pair =>
    obtain ⟨keys, htokens, -, -, hlength⟩ := (BuiltIn.drawn source state hdraw).isOf.exists_tokens
    rw [generate_of_draw_ok hdraw htokens, hlength]

end KeyPair

namespace SharedSecret

variable {G : ModpGroup} {own own' peer secret secret' : String} {x y : ℕ}

/-- A secret is reported with the number of base-256 digits of the common value. -/
theorem NumbersLead.events_eq {r : Logged (Except Fault String)} (h : NumbersLead G x y r)
    (hr : r.outcome = .ok secret) :
    r.events = [.secretDerived (BigEndian.byteLength (y ^ x % G.modulus))] := by
  cases h with
  | refusedPeer => cases hr
  | zeroExponent => cases hr
  | wideExponent => cases hr
  | refusedKey => cases hr
  | degenerate => cases hr
  | @secret s hy hx hkey hshared hs hhead hlen =>
    have h0 : y ^ x % G.modulus ≠ 0 := fun h0 => hshared (Or.inl h0)
    obtain rfl := BigEndian.eq_minimal_of_head h0 hs hhead
    rw [BigEndian.length_minimal,
      BigEndian.minimalWidth_eq h0 fun k => BigEndian.byteLength_le_iff]

theorem exists_events_derive (h : (derive G own peer).outcome = .ok secret) :
    ∃ x y, Token.Denotes own x ∧ Token.Denotes peer y ∧ (derive G own peer).events
      = [.secretDerived (BigEndian.byteLength (y ^ x % G.modulus))] := by
  obtain ⟨x, y, hown, hpeer, hnumbers⟩ := (tokensLead_derive G own peer).exists_numbersLead h
  exact ⟨x, y, hown, hpeer, hnumbers.events_eq h⟩

/-- Two own tokens that lead to secrets with one peer's token leave the same events behind exactly
when their common values have equally many bytes. Two key pairs drawn for one group always do. -/
theorem events_derive_eq_iff (G : ModpGroup) {own own' peer secret secret' : String}
    (h : (derive G own peer).outcome = .ok secret)
    (h' : (derive G own' peer).outcome = .ok secret') :
    (∃ x x' y, Token.Denotes own x ∧ Token.Denotes own' x' ∧ Token.Denotes peer y ∧
      ((derive G own peer).events = (derive G own' peer).events ↔
        BigEndian.byteLength (y ^ x % G.modulus) = BigEndian.byteLength (y ^ x' % G.modulus))) ∧
    ∀ {σ τ : Type} (source : Entropy σ) (state : σ) (source' : Entropy τ) (state' : τ)
      (keys keys' : KeyTokens),
      (KeyPair.generate G source state).1.outcome = .ok keys →
      (KeyPair.generate G source' state').1.outcome = .ok keys' →
        (KeyPair.generate G source state).1.events
          = (KeyPair.generate G source' state').1.events := by
  constructor
  · obtain ⟨x, y, hown, hpeer, hevents⟩ := exists_events_derive h
    obtain ⟨x', y', hown', hpeer', hevents'⟩ := exists_events_derive h'
    obtain rfl := hpeer.unique hpeer'
    refine ⟨x, x', y, hown, hown', hpeer, ?_⟩
    rw [hevents, hevents', List.singleton_inj, Event.secretDerived.injEq]
  · intro σ τ source state source' state' keys keys' hkeys hkeys'
    rw [KeyPair.events_generate hkeys, KeyPair.events_generate hkeys']

/-- Modulo 23 the own exponents 6 and 17 lead to the common values 2 and 21 with the peer's value
19, one byte each, and the log does not tell them apart. The pairs drawn from these two bytes are
reported alike. -/
theorem events_derive_eq_iff_mod23 :
    (derive .mod23 "Bg" "Ew").outcome = .ok (token [2]) ∧
      (derive .mod23 "EQ" "Ew").outcome = .ok (token [21]) ∧
      (derive .mod23 "Bg" "Ew").events = (derive .mod23 "EQ" "Ew").events ∧
      (KeyPair.generate .mod23 Tape.source (.once [6])).1.outcome = .ok ⟨"Bg", "CA"⟩ ∧
      (KeyPair.generate .mod23 Tape.source (.once [17])).1.outcome = .ok ⟨"EQ", "Dw"⟩ ∧
      (KeyPair.generate .mod23 Tape.source (.once [6])).1.events
        = (KeyPair.generate .mod23 Tape.source (.once [17])).1.events := by
  have h6 : Token.Denotes "Bg" 6 := Token.denotes_of_decode rfl rfl rfl
  have h17 : Token.Denotes "EQ" 17 := Token.denotes_of_decode rfl rfl rfl
  have h19 : Token.Denotes "Ew" 19 := Token.denotes_of_decode rfl rfl rfl
  have hout : (derive .mod23 "Bg" "Ew").outcome = .ok (token [2]) := rfl
  have hout' : (derive .mod23 "EQ" "Ew").outcome = .ok (token [21]) := rfl
  have hkeys : (KeyPair.generate .mod23 Tape.source (.once [6])).1.outcome = .ok ⟨"Bg", "CA"⟩ := by
    decide
  have hkeys' : (KeyPair.generate .mod23 Tape.source (.once [17])).1.outcome
      = .ok ⟨"EQ", "Dw"⟩ := by
    decide
  obtain ⟨⟨x, x', y, hx, hx', hy, hiff⟩, hgenerate⟩ := events_derive_eq_iff .mod23 hout hout'
  obtain rfl := hx.unique h6
  obtain rfl := hx'.unique h17
  obtain rfl := hy.unique h19
  exact ⟨hout, hout', hiff.2 (by decide), hkeys, hkeys',
    hgenerate Tape.source _ Tape.source _ _ _ hkeys hkeys'⟩

/-- In the standard group the own exponents 2 and 8 lead to secrets with the peer's value 2, and the
log tells them apart: their common values 4 and 256 have one byte and two. -/
theorem events_derive_ne_standard :
    ∃ secret secret', (derive .standard "Ag" "Ag").outcome = .ok secret ∧
      (derive .standard "CA" "Ag").outcome = .ok secret' ∧
      (derive .standard "Ag" "Ag").events ≠ (derive .standard "CA" "Ag").events := by
  have h2 : Token.Denotes "Ag" 2 := Token.denotes_of_decode rfl rfl rfl
  have h8 : Token.Denotes "CA" 8 := Token.denotes_of_decode rfl rfl rfl
  have hwidth := ModpGroup.byteLength_standard
  have hfirst : derive .standard "Ag" "Ag" = ⟨.ok (token [4]), [.secretDerived 1]⟩ :=
    (TokensLead.numbers h2 h2 (.secret (by decide) (by rw [hwidth]; decide) (by decide)
      (by decide) (by decide) (by decide) (by rw [hwidth]; decide))).eq_derive
  have hsecond : derive .standard "CA" "Ag" = ⟨.ok (token [1, 0]), [.secretDerived 2]⟩ :=
    (TokensLead.numbers h2 h8 (.secret (by decide) (by rw [hwidth]; decide) (by decide)
      (by decide) (by decide) (by decide) (by rw [hwidth]; decide))).eq_derive
  rw [hfirst, hsecond]
  exact ⟨_, _, rfl, rfl, by decide⟩

end SharedSecret

end KeyAgreement
