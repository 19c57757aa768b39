import KeyAgreement.Entropy
import KeyAgreement.Event
import KeyAgreement.KeyPair

/-!
# Drawing key pairs

Exponents are drawn evenly from two to the modulus less two. A sample takes a key's worth of bytes,
clears the bits that the modulus does not reach into, and is dropped if it lies outside the range;
reducing it instead would favour small exponents. A pair whose public value is degenerate is dropped
too, and its exponent sampled anew.

Both loops are bounded, so a source that never serves anything usable ends in a fault. The bounds
are never met in practice: at least three samples in eight lie in the range, and under a safe prime
a single exponent of the range has a degenerate public value.
-/

namespace KeyAgreement

/-! ## Exponents -/

/-- A byte string with the `count` high bits of its first byte cleared. -/
def clearHighBits (count : Nat) : List UInt8 → List UInt8
  | [] => []
  | byte :: rest => (byte &&& (255 >>> UInt8.ofNat count)) :: rest

namespace ModpGroup

/-- The number that a buffer of random bytes is taken for. -/
def sample (G : ModpGroup) (buffer : List UInt8) : Nat :=
  BigEndian.toNat (clearHighBits G.excessBits buffer)

/-- The exponents that are drawn. -/
def IsExponent (G : ModpGroup) (value : Nat) : Prop := 2 ≤ value ∧ value ≤ G.modulus - 2

instance (G : ModpGroup) (value : Nat) : Decidable (G.IsExponent value) :=
  inferInstanceAs (Decidable (_ ∧ _))

end ModpGroup

namespace KeyPair

/-- The number of samples for one exponent, and of exponents for one pair. -/
def attempts : Nat := 128

variable {σ : Type}

/-- An exponent from at most so many samples. -/
def drawExponent (G : ModpGroup) (source : Entropy σ) :
    (tries : Nat) → σ → Except KeyFault Nat × σ
  | 0, state => (.error .samplingExhausted, state)
  | tries + 1, state =>
    match source.fill G.byteLength state with
    | (.error cause, state) => (.error (.entropy cause), state)
    | (.ok buffer, state) =>
      let value := G.sample buffer.toList
      if G.IsExponent value then (.ok value, state) else drawExponent G source tries state

/-- A key pair from at most so many exponents. -/
def drawWithin (G : ModpGroup) (source : Entropy σ) :
    (tries : Nat) → σ → Except KeyFault KeyPair × σ
  | 0, state => (.error .noUsableExponent, state)
  | tries + 1, state =>
    match drawExponent G source attempts state with
    | (.error cause, state) => (.error cause, state)
    | (.ok exponent, state) =>
      if G.IsPublic (G.publicValue exponent) then
        match keyBytes G exponent with
        | .error cause => (.error (.encoding cause), state)
        | .ok bytes => (.ok ⟨bytes, G.publicValue exponent⟩, state)
      else drawWithin G source tries state

/-- A key pair drawn from a source. -/
def draw (G : ModpGroup) (source : Entropy σ) (state : σ) : Except KeyFault KeyPair × σ :=
  drawWithin G source attempts state

/-- Up to `count` key pairs drawn one after the other, each with the state after it. A fault is the
last entry. -/
def drawMany (G : ModpGroup) (source : Entropy σ) :
    (count : Nat) → σ → List (Except KeyFault KeyPair × σ)
  | 0, _ => []
  | count + 1, state =>
    match draw G source state with
    | (.error cause, state) => [(.error cause, state)]
    | (.ok pair, state) => (.ok pair, state) :: drawMany G source count state

/-- A key pair drawn from a source and handed out as tokens. The event tells the length of the
public token; a failure is not reported. -/
def generate (G : ModpGroup) (source : Entropy σ) (state : σ) :
    Logged (Except KeyFault KeyTokens) × σ :=
  match draw G source state with
  | (.error cause, state) => (.silent (.error cause), state)
  | (.ok pair, state) =>
    match pair.tokens G with
    | .error cause => (.silent (.error (.encoding cause)), state)
    | .ok tokens =>
      (⟨.ok tokens, [.keyPairGenerated (Text.bytes tokens.publicToken).length]⟩, state)

end KeyPair

end KeyAgreement
