import KeyAgreement.ModpGroup
import KeyAgreement.Token

/-!
# Public values

A public value is accepted when it lies strictly between one and the modulus less one. The values
left out would pin the common value to one that anybody could guess, whatever the own exponent is.

A public token is judged by the number it stands for: leading zero bytes are welcome, as peers
differ in the width they write.
-/

namespace KeyAgreement

/-- The values that are accepted from a peer. -/
def ModpGroup.IsPublic (G : ModpGroup) (value : Nat) : Prop := 1 < value ∧ value < G.top

instance (G : ModpGroup) (value : Nat) : Decidable (G.IsPublic value) :=
  inferInstanceAs (Decidable (_ ∧ _))

/-- The same check on a number that may be negative; a negative number is never accepted. -/
def ModpGroup.IsPublicInt (G : ModpGroup) : Int → Prop
  | .ofNat value => G.IsPublic value
  | .negSucc _ => False

instance (G : ModpGroup) : (value : Int) → Decidable (G.IsPublicInt value)
  | .ofNat value => inferInstanceAs (Decidable (G.IsPublic value))
  | .negSucc _ => inferInstanceAs (Decidable False)

namespace PublicValue

/-- The value of a peer's public token: the token must be made of symbols, stand for bytes, and the
bytes for an accepted value. -/
def decode (G : ModpGroup) (token : String) : Except Fault Nat :=
  if Token.isSymbolic token then
    match Token.decode token with
    | .error cause => .error (.encoding (.base64 cause))
    | .ok bytes =>
      let value := BigEndian.toNat bytes
      if G.IsPublic value then .ok value else .error .invalidPublicKey
  else .error .invalidCharset

end PublicValue

end KeyAgreement
