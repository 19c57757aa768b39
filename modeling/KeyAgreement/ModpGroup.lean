import KeyAgreement.Fault
import KeyAgreement.ModularPower

/-!
# Groups for an exchange

Both sides of an exchange calculate with powers of one generator modulo one number. A `ModpGroup` is
such a pair, valid by construction: the modulus is odd and above five, and the generator is neither
trivial nor the negative of one. That the modulus is a safe prime is not checked; a caller who
brings a modulus of his own answers for it.

The bounds give all the room that later arithmetic needs: there are exponents from two to the
modulus less two, and the modulus has at least one byte.
-/

namespace KeyAgreement

/-- A modulus and a generator that an exchange can be held in. -/
structure ModpGroup where
  /-- The number modulo which both sides calculate. -/
  modulus : Nat
  /-- The number whose powers are exchanged. -/
  generator : Nat
  modulus_odd : modulus % 2 = 1
  five_lt_modulus : 5 < modulus
  one_lt_generator : 1 < generator
  /-- The generator is reduced and not the negative of one. -/
  generator_lt : generator < modulus - 1

namespace ModpGroup

@[ext] theorem ext {G H : ModpGroup} (modulus : G.modulus = H.modulus)
    (generator : G.generator = H.generator) : G = H := by
  cases G; cases H
  simp_all

instance : DecidableEq ModpGroup := fun G H =>
  decidable_of_iff (G.modulus = H.modulus ∧ G.generator = H.generator)
    ⟨fun h => ext h.1 h.2, fun h => h ▸ ⟨rfl, rfl⟩⟩

/-- The group of a modulus and a generator, if they make one. A bad modulus is named before a bad
generator. -/
def of (modulus generator : Nat) : Except GroupFault ModpGroup :=
  if hm : modulus % 2 = 1 ∧ 5 < modulus then
    if hg : 1 < generator ∧ generator < modulus - 1 then
      .ok ⟨modulus, generator, hm.1, hm.2, hg.1, hg.2⟩
    else .error .generator
  else .error .modulus

/-- The group whose modulus is given by its big-endian bytes. -/
def ofBytes (modulus : List UInt8) (generator : Nat) : Except GroupFault ModpGroup :=
  of (BigEndian.toNat modulus) generator

/-- The largest residue, which is the negative of one. -/
def top (G : ModpGroup) : Nat := G.modulus - 1

/-- The number of binary digits of the modulus, to which samples are cut off. -/
def bits (G : ModpGroup) : Nat := BigEndian.bitLength G.modulus

/-- The number of bytes of the modulus, which is the width of keys. -/
def byteLength (G : ModpGroup) : Nat := BigEndian.byteLength G.modulus

/-- The high bits of a key's first byte that the modulus does not reach into. -/
def excessBits (G : ModpGroup) : Nat := 8 * G.byteLength - G.bits

/-- The power of a value in the group. -/
def power (G : ModpGroup) (value exponent : Nat) : Nat := modPow value exponent G.modulus

end ModpGroup

end KeyAgreement
