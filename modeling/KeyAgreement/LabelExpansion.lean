import KeyAgreement.ModpGroup
import KeyAgreement.Sha256
import KeyAgreement.Text

/-!
# Exponents from labels

Test data that anybody can make again needs exponents that are fixed and look random. A label is
expanded into five digests, of the label with a counter behind it, and the first 135 bytes of them
are reduced into the range of exponents that are drawn.
-/

namespace KeyAgreement.LabelExpansion

/-- The bytes taken from the digests, as many as a key of the standard group has. -/
def width : Nat := 135

/-- The digests of a label, one for each counter. -/
def material (label : String) : List UInt8 :=
  (List.range 5).flatMap fun counter => Sha256.digest (Text.bytes label ++ [UInt8.ofNat counter])

/-- The exponent of a label in a group. -/
def exponent (G : ModpGroup) (label : String) : Nat :=
  BigEndian.toNat ((material label).take width) % (G.modulus - 3) + 2

/-- The digests are more than is taken from them. -/
theorem length_material (label : String) : (material label).length = 160 := by
  simp only [material, List.length_flatMap, Sha256.length_digest]
  rfl

end KeyAgreement.LabelExpansion
