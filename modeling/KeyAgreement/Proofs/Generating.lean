import KeyAgreement.Proofs.Drawing

/-!
# Key pairs handed out

A pair is drawn, its public value is written as a token, and both tokens are handed out with one
event. On the way a number is twice written in the width of the group's keys, and a number that is
too wide would be a fault; neither fault can come up, as exponents and public values are below the
modulus. So what is left to fail is the drawing, and a failure shows neither in tokens nor in the
log.

The main statement is `generate_tokens_or_fault`.
-/

namespace KeyAgreement

namespace KeyPair

variable {G : ModpGroup} {σ : Type} {source : Entropy σ} {state : σ} {pair : KeyPair}

/-! ## Handing out -/

/-- A pair of the group has both tokens, and the group alone decides how long the public one is. -/
theorem IsOf.exists_tokens (h : pair.IsOf G) : ∃ keys, pair.tokens G = .ok keys ∧
    keys.privateToken = pair.privateToken ∧ pair.publicToken G = .ok keys.publicToken ∧
    (Text.bytes keys.publicToken).length = Token.length G.byteLength := by
  refine ⟨⟨pair.privateToken, Token.encode (BigEndian.padTo G.byteLength pair.publicValue)⟩, ?_,
    rfl, h.publicToken_eq, ?_⟩
  · rw [tokens, h.publicToken_eq]
    rfl
  · rw [Token.bytes_encode, Token.length_encodeBytes, BigEndian.length_padTo]

theorem generate_of_draw_error {cause : KeyFault} (h : (draw G source state).1 = .error cause) :
    (generate G source state).1 = ⟨.error cause, []⟩ := by
  unfold generate
  rcases hdraw : draw G source state with ⟨c | pair, after⟩
  · rw [hdraw] at h
    rw [Except.error.inj h]
    rfl
  · rw [hdraw] at h
    cases h

/-- A drawn pair that has tokens is handed out, and reported with the length of the public one. -/
theorem generate_of_draw_ok {keys : KeyTokens} (h : (draw G source state).1 = .ok pair)
    (hkeys : pair.tokens G = .ok keys) :
    (generate G source state).1
      = ⟨.ok keys, [.keyPairGenerated (Text.bytes keys.publicToken).length]⟩ := by
  unfold generate
  rcases hdraw : draw G source state with ⟨c | drawn, after⟩
  · rw [hdraw] at h
    cases h
  · rw [hdraw] at h
    obtain rfl := Except.ok.inj h
    simp only [hkeys]

/-! ## Faults of drawing -/

/-- The faults that drawing from these samples can end with. -/
inductive IsDrawFault (v : Samples) : KeyFault → Prop where
  /-- The source refused to serve this sample. -/
  | refused {i : ℕ} {cause : EntropyFault} (h : v i = .error cause) : IsDrawFault v (.entropy cause)
  | exhausted : IsDrawFault v .samplingExhausted
  | spent : IsDrawFault v .noUsableExponent

theorem isDrawFault_of_draw {cause : KeyFault} (h : (draw G source state).1 = .error cause) :
    IsDrawFault (samples G source state) cause := by
  obtain ⟨n, r, -, hstop, hmap, -⟩ := exists_stop G source state
  rw [h] at hmap
  obtain rfl : Except.error cause = r := hmap
  cases hstop with
  | refused hn => exact .refused hn
  | dry => exact .exhausted
  | spent => exact .spent

theorem draw_ne_encoding (cause : EncodingFault) :
    (draw G source state).1 ≠ .error (.encoding cause) := by
  intro h
  cases isDrawFault_of_draw h

/-- Generating a key pair hands out both tokens of one pair, whose exponent lies in the range, with
one event that tells the length of the public token; or it ends with a fault of the drawing and
reports nothing. The length is the same for all pairs of the group. No number on the way is too wide
for the group's keys. -/
theorem generate_tokens_or_fault (G : ModpGroup) (source : Entropy σ) (state : σ) :
    ((∃ (pair : KeyPair) (keys : KeyTokens), (draw G source state).1 = .ok pair ∧
        (2 ≤ pair.exponent ∧ pair.exponent ≤ G.modulus - 2) ∧
        ofExponent G pair.exponent = .ok pair ∧
        keys.privateToken = pair.privateToken ∧ pair.publicToken G = .ok keys.publicToken ∧
        (generate G source state).1
          = ⟨.ok keys, [.keyPairGenerated (Text.bytes keys.publicToken).length]⟩ ∧
        (Text.bytes keys.publicToken).length = Token.length G.byteLength) ∨
      ∃ cause, (generate G source state).1 = ⟨.error cause, []⟩ ∧
        IsDrawFault (samples G source state) cause) ∧
    (∀ cause, (draw G source state).1 ≠ .error (.encoding cause)) ∧
    (¬ ∃ pair cause, (draw G source state).1 = .ok pair ∧ pair.publicToken G = .error cause) ∧
    (∀ length, (Event.keyPairGenerated length).level = .debug ∧
      (Event.keyPairGenerated length).fields = [("public_token_len", .number length)]) ∧
    (∀ cause, (Fault.keyGeneration (.entropy cause)).detail = "rng failure: " ++ cause.message) ∧
    (Fault.keyGeneration .samplingExhausted).detail = "rejection sampling exhausted" ∧
    (Fault.keyGeneration .noUsableExponent).detail = "no usable private exponent found" := by
  refine ⟨?_, draw_ne_encoding, ?_, fun _ => ⟨rfl, rfl⟩, fun _ => rfl, rfl, rfl⟩
  · cases hdraw : (draw G source state).1 with
    | error cause =>
      exact Or.inr ⟨cause, generate_of_draw_error hdraw, isDrawFault_of_draw hdraw⟩
    | ok pair =>
      obtain ⟨hof, hrange⟩ := isOf_of_drawWithin hdraw
      obtain ⟨keys, htokens, hprivate, hpublic, hlength⟩ := hof.exists_tokens
      exact Or.inl ⟨pair, keys, rfl, hrange, hof.ofExponent_exponent, hprivate, hpublic,
        generate_of_draw_ok hdraw htokens, hlength⟩
  · rintro ⟨pair, cause, hdraw, hpublic⟩
    have hof : pair.IsOf G := (BuiltIn.drawn source state hdraw).isOf
    cases hof.publicToken_eq.symm.trans hpublic

/-- Modulo 23 the pair of the exponent 6 is handed out behind a miss and a wasted exponent, and a
source that has nothing left is refused and leaves no trace. -/
theorem generate_tokens_or_fault_mod23 :
    (generate .mod23 Tape.source (.once [255, 11, 6])).1
        = ⟨.ok ⟨"Bg", "CA"⟩, [.keyPairGenerated 2]⟩ ∧
      (∃ pair keys, (draw .mod23 Tape.source (.once [255, 11, 6])).1 = .ok pair ∧
        (2 ≤ pair.exponent ∧ pair.exponent ≤ 21) ∧ keys.privateToken = pair.privateToken ∧
        pair.publicToken .mod23 = .ok keys.publicToken ∧
        (generate .mod23 Tape.source (.once [255, 11, 6])).1.outcome = .ok keys) ∧
      ∃ cause, (generate .mod23 Tape.source (.once [255, 11])).1 = ⟨.error cause, []⟩ ∧
        IsDrawFault (samples .mod23 Tape.source (.once [255, 11])) cause := by
  have hok : (generate .mod23 Tape.source (.once [255, 11, 6])).1
      = ⟨.ok ⟨"Bg", "CA"⟩, [.keyPairGenerated 2]⟩ := by decide
  have herror : (generate .mod23 Tape.source (.once [255, 11])).1
      = ⟨.error (.entropy Tape.exhausted), []⟩ := by decide
  refine ⟨hok, ?_, ?_⟩
  · rcases (generate_tokens_or_fault .mod23 Tape.source (.once [255, 11, 6])).1 with
      ⟨pair, keys, hdraw, hrange, -, hprivate, hpublic, hgenerate, -⟩ | ⟨cause, hgenerate, -⟩
    · exact ⟨pair, keys, hdraw, hrange, hprivate, hpublic, congrArg Logged.outcome hgenerate⟩
    · cases congrArg Logged.outcome (hok.symm.trans hgenerate)
  · rcases (generate_tokens_or_fault .mod23 Tape.source (.once [255, 11])).1 with
      ⟨pair, keys, -, -, -, -, -, hgenerate, -⟩ | hfault
    · cases congrArg Logged.outcome (herror.symm.trans hgenerate)
    · exact hfault

end KeyPair

end KeyAgreement
