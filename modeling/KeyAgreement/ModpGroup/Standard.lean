import KeyAgreement.ModpGroup

/-!
# The standard group

The group that all peers use unless they agree on another one: a safe prime of 1080 bits, which is
135 bytes, and the generator two. Two sides that calculate in different groups derive unrelated
secrets, so these numbers are part of the protocol.
-/

namespace KeyAgreement.ModpGroup

/-- The standard modulus. -/
def standardModulus : Nat :=
  0xfbe1022e23d213e8acfa9ae8b9dfada3ea6b7ac7a7b7e95ab5eb2df858921feade95e6ac7be7de6adbab8a783e7af7a7fa6a2b7beb1e72eae2b72f9fa2bfb2a2efbefac868badb3e828fa8badfada3e4cc1be7e8afe85e9698a783eb68fa07a77ab6ad7beb618acf9ca2897eb28a6189efa07ab99a8a7fa9ae299efa7ba66deafefbefbf0b7d8b

/-- The standard group. -/
def standard : ModpGroup where
  modulus := standardModulus
  generator := 2
  modulus_odd := by decide
  five_lt_modulus := by decide
  one_lt_generator := by decide
  generator_lt := by decide

/-- The standard modulus has 1080 binary digits. -/
theorem bits_standard : standard.bits = 1080 := by decide +kernel

/-- Keys of the standard group have 135 bytes. -/
theorem byteLength_standard : standard.byteLength = 135 := by decide +kernel

/-- How a caller names a group. -/
inductive Choice where
  /-- The standard group. -/
  | standard
  /-- A group of the caller's own, its modulus given by big-endian bytes. -/
  | custom (modulus : List UInt8) (generator : Nat)
deriving DecidableEq, Repr

/-- The group that was named. -/
def Choice.group : Choice → Except GroupFault ModpGroup
  | .standard => .ok ModpGroup.standard
  | .custom modulus generator => ofBytes modulus generator

end KeyAgreement.ModpGroup
