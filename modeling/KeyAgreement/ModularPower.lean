import KeyAgreement.BigEndian

/-!
# Powers modulo a number

A power of a 1080-bit number to a 1080-bit exponent cannot be written down, so it is computed by
repeated squaring with a reduction after every product. The recursion runs over the binary digits of
the exponent and not over the exponent itself, which keeps it short and lets closed instances be
evaluated in the logic.
-/

namespace KeyAgreement

/-- Repeated squaring over the `digits` low binary digits of the exponent: the even half is a power
of the square, and an odd exponent takes one more factor. -/
def squareAndMultiply (modulus : Nat) : (digits : Nat) → (base exponent : Nat) → Nat
  | 0, _, _ => 1 % modulus
  | digits + 1, base, exponent =>
    let half := squareAndMultiply modulus digits (base * base % modulus) (exponent / 2)
    if exponent % 2 = 1 then half * base % modulus else half

/-- The power of `base` to `exponent`, modulo `modulus`. -/
def modPow (base exponent modulus : Nat) : Nat :=
  squareAndMultiply modulus (BigEndian.bitLength exponent) base exponent

end KeyAgreement
