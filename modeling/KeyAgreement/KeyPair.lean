import KeyAgreement.PublicValue

/-!
# Key pairs

A key pair is a private exponent `x` and its public value `g ^ x`, modulo the group's modulus. The
exponent is kept in the form in which it is written, as bytes of the width of the group's keys, so
private tokens of a group all have one length; it may be larger than the modulus as long as it fits.

An exponent whose public value no peer would accept makes no key pair.
-/

namespace KeyAgreement

/-- A private exponent and its public value. -/
structure KeyPair where
  /-- The exponent as big-endian bytes of the width of the group's keys. -/
  privateBytes : List UInt8
  /-- The power of the generator to the exponent. -/
  publicValue : Nat
deriving DecidableEq

/-- The public value of an exponent, the power of the generator to it. -/
def ModpGroup.publicValue (G : ModpGroup) (exponent : Nat) : Nat := G.power G.generator exponent

namespace KeyPair

/-- The exponent as a number. -/
def exponent (pair : KeyPair) : Nat := BigEndian.toNat pair.privateBytes

/-- A number as key bytes of a group. -/
def keyBytes (G : ModpGroup) (value : Nat) : Except EncodingFault (List UInt8) :=
  (BigEndian.toFixed G.byteLength value).mapError .tooWide

/-- The key pair of an exponent: the exponent must be positive, fit into the width of the group's
keys, and have an accepted public value. The first of these that fails is named. -/
def ofExponent (G : ModpGroup) (exponent : Nat) : Except KeyFault KeyPair :=
  if exponent = 0 then .error .zeroExponent
  else
    match keyBytes G exponent with
    | .error cause => .error (.encoding cause)
    | .ok bytes =>
      if G.IsPublic (G.publicValue exponent) then .ok ⟨bytes, G.publicValue exponent⟩
      else .error .degeneratePublicValue

/-- The private half as a token. It is of the width of the keys of the pair's group, whatever the
exponent. -/
def privateToken (pair : KeyPair) : String := Token.encode pair.privateBytes

/-- The public half as a token of the width of a group's keys. The group is usually the one that the
pair was made in; in a narrower one the value may not fit. -/
def publicToken (pair : KeyPair) (G : ModpGroup) : Except EncodingFault String :=
  (keyBytes G pair.publicValue).map Token.encode

/-- The description of a pair for a log or a terminal, which leaves the exponent out. -/
def describe (pair : KeyPair) : String :=
  "KeyPair \x7b private_exponent: \"<redacted>\", public_value: " ++ toString pair.publicValue
    ++ " \x7d"

end KeyPair

/-- A key pair in the form in which it is handed out. -/
structure KeyTokens where
  /-- The token that is kept secret. -/
  privateToken : String
  /-- The token that is sent to the peer. -/
  publicToken : String
deriving DecidableEq, Repr

/-- Both halves as tokens; only the public one can fail to fit. -/
def KeyPair.tokens (pair : KeyPair) (G : ModpGroup) : Except EncodingFault KeyTokens :=
  (pair.publicToken G).map fun publicToken => ⟨pair.privateToken, publicToken⟩

end KeyAgreement
