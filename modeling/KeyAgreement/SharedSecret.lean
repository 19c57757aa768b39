import KeyAgreement.Event
import KeyAgreement.KeyPair
import KeyAgreement.Sha256

/-!
# Shared secrets

With the own exponent `x` and the peer's public value `y`, both sides arrive at the common value `y
^ x`, since `(g ^ a) ^ b` and `(g ^ b) ^ a` are one power. The common value itself is never handed
out: its shortest big-endian bytes are hashed, and the digest leaves as a token.

`derive` works on tokens and takes its decisions in a fixed order: the symbols of both tokens, the
peer's token, the own token, the peer's value, the own key, and last the common value.
-/

namespace KeyAgreement.SharedSecret

/-- The secret that is handed out for a common value. -/
def token (shared : List UInt8) : String := Token.encode (Sha256.digest shared)

/-- The common values that anybody could guess: zero, one, and the negative of one. -/
def IsDegenerate (G : ModpGroup) (shared : Nat) : Prop := shared ≤ 1 ∨ shared = G.top

instance (G : ModpGroup) (shared : Nat) : Decidable (IsDegenerate G shared) :=
  inferInstanceAs (Decidable (_ ∨ _))

/-- The common value with a peer, in its shortest form. -/
def agree (G : ModpGroup) (own : KeyPair) (peer : Nat) : Except DerivationFault (List UInt8) :=
  let shared := G.power peer own.exponent
  if IsDegenerate G shared then .error .degenerateShared else .ok (BigEndian.minimal shared)

/-- The secret from the numbers that the tokens stand for. -/
def deriveFrom (G : ModpGroup) (exponent peer : Nat) : Logged (Except Fault String) :=
  if G.IsPublic peer then
    match KeyPair.ofExponent G exponent with
    | .error cause => .silent (.error (.derivation (.ownKey cause)))
    | .ok own =>
      match agree G own peer with
      | .error cause => .silent (.error (.derivation cause))
      | .ok shared => ⟨.ok (token shared), [.secretDerived shared.length]⟩
  else ⟨.error .invalidPublicKey, [.peerRefused (BigEndian.bitLength peer)]⟩

/-- The secret that an own private token and a peer's public token lead to. -/
def derive (G : ModpGroup) (privateToken peerToken : String) : Logged (Except Fault String) :=
  if Token.isSymbolic privateToken && Token.isSymbolic peerToken then
    match Token.decode peerToken with
    | .error cause => .silent (.error (.encoding (.base64 cause)))
    | .ok peerBytes =>
      match Token.decode privateToken with
      | .error cause => .silent (.error (.encoding (.base64 cause)))
      | .ok privateBytes => deriveFrom G (BigEndian.toNat privateBytes) (BigEndian.toNat peerBytes)
  else ⟨.error .invalidCharset, [.charsetRefused]⟩

end KeyAgreement.SharedSecret
