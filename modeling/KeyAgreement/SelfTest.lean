import KeyAgreement.KeyPair.Generation
import KeyAgreement.SharedSecret

/-!
# Self-tests

Drawn keys are random and their values are nobody's business, but some facts hold of all of them:
how long the tokens are, what they are made of, and that each half fits the other. A self-test draws
keys and reports those facts.
-/

namespace KeyAgreement

/-- What may be told about the tokens of a drawn key pair. -/
structure KeyReport where
  /-- The length of the private token. -/
  privateLength : Nat
  /-- The length of the public token. -/
  publicLength : Nat
  /-- Both tokens are made of symbols only. -/
  symbolic : Bool
  /-- The exponent is one that can be drawn. -/
  inRange : Bool
  /-- A peer accepts the public token. -/
  accepted : Bool
  /-- The private token alone leads back to both tokens. -/
  rebuilds : Bool
deriving DecidableEq, Repr

/-- What may be told about an exchange of two drawn key pairs. -/
structure ExchangeReport where
  /-- Both sides arrive at one secret. -/
  agree : Bool
  /-- The length of the secret of the first side. -/
  secretLength : Nat
  /-- The two private tokens differ. -/
  distinct : Bool
deriving DecidableEq, Repr

namespace KeyTokens

/-- The exponent that the private token stands for. -/
def exponent? (tokens : KeyTokens) : Option Nat :=
  (Token.decode tokens.privateToken).toOption.map BigEndian.toNat

/-- The tokens that the private token alone leads to. -/
def rebuilt? (tokens : KeyTokens) (G : ModpGroup) : Option KeyTokens := do
  let exponent ← tokens.exponent?
  let pair ← (KeyPair.ofExponent G exponent).toOption
  (pair.tokens G).toOption

/-- The facts about the tokens of a key pair of a group. -/
def report (tokens : KeyTokens) (G : ModpGroup) : KeyReport where
  privateLength := (Text.bytes tokens.privateToken).length
  publicLength := (Text.bytes tokens.publicToken).length
  symbolic := Token.isSymbolic tokens.privateToken && Token.isSymbolic tokens.publicToken
  inRange := tokens.exponent?.any fun x => G.IsExponent x
  accepted := (PublicValue.decode G tokens.publicToken).toBool
  rebuilds := tokens.rebuilt? G = some tokens

end KeyTokens

namespace SelfTest

variable {σ : Type}

/-- Draws a key pair without reporting it and tells the facts about its tokens. -/
def draw (G : ModpGroup) (source : Entropy σ) (state : σ) : Except Fault KeyReport × σ :=
  match KeyPair.draw G source state with
  | (.error cause, state) => (.error (.keyGeneration cause), state)
  | (.ok pair, state) =>
    match pair.tokens G with
    | .error cause => (.error (.encoding cause), state)
    | .ok tokens => (.ok (tokens.report G), state)

/-- Has a key pair generated and tells the facts about its tokens. -/
def generate (G : ModpGroup) (source : Entropy σ) (state : σ) :
    Logged (Except Fault KeyReport) × σ :=
  let (generated, state) := KeyPair.generate G source state
  (generated.map fun
    | .error cause => .error (.keyGeneration cause)
    | .ok tokens => .ok (tokens.report G), state)

/-- What two key pairs come to: each side derives a secret from the other's public token. -/
def meet (G : ModpGroup) (a b : KeyTokens) : Logged (Except Fault ExchangeReport) :=
  (SharedSecret.derive G a.privateToken b.publicToken).andThen fun secret =>
    (SharedSecret.derive G b.privateToken a.publicToken).map fun derived =>
      derived.map fun other =>
        { agree := secret == other
          secretLength := (Text.bytes secret).length
          distinct := a.privateToken != b.privateToken }

/-- Has two key pairs generated and lets them meet. The first fault ends the test. -/
def exchange (G : ModpGroup) (source : Entropy σ) (state : σ) :
    Logged (Except Fault ExchangeReport) × σ :=
  let (first, state) := KeyPair.generate G source state
  match first.outcome with
  | .error cause => (⟨.error (.keyGeneration cause), first.events⟩, state)
  | .ok a =>
    let (second, state) := KeyPair.generate G source state
    match second.outcome with
    | .error cause => (⟨.error (.keyGeneration cause), first.events ++ second.events⟩, state)
    | .ok b =>
      let met := meet G a b
      (⟨met.outcome, first.events ++ second.events ++ met.events⟩, state)

end SelfTest

end KeyAgreement
