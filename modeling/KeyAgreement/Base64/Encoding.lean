import KeyAgreement.Base64.Alphabet
import KeyAgreement.Text

/-!
# Writing base64

Three bytes are twenty-four bits, which are four symbols. A last group of one or two bytes gives one
symbol more than it has bytes, its unused low bits zero, and padding bytes fill it up to four.

The symbols without the padding are `unpadded`: the padding carries nothing, and the key tokens of
`KeyAgreement.Token` leave it out.
-/

namespace KeyAgreement.Base64

/-- The six-bit values of a byte string, high bits first. -/
def sextets : List UInt8 → List Nat
  | [] => []
  | [a] => [a.toNat / 4, a.toNat % 4 * 16]
  | [a, b] => [a.toNat / 4, a.toNat % 4 * 16 + b.toNat / 16, b.toNat % 16 * 4]
  | a :: b :: c :: rest =>
    a.toNat / 4 :: (a.toNat % 4 * 16 + b.toNat / 16) :: (b.toNat % 16 * 4 + c.toNat / 64)
      :: c.toNat % 64 :: sextets rest

/-- The symbols of a byte string, without padding. -/
def unpadded (bytes : List UInt8) : List UInt8 := (sextets bytes).map symbol

/-- The padding bytes that fill up the last group of `size` bytes: none, two or one. -/
def paddingCount (size : Nat) : Nat := (3 - size % 3) % 3

/-- The base64 form of a byte string, as the bytes of an ASCII text. -/
def encodeBytes (bytes : List UInt8) : List UInt8 :=
  unpadded bytes ++ List.replicate (paddingCount bytes.length) padding

/-- The base64 form of a byte string. -/
def encode (bytes : List UInt8) : String := Text.ofAscii (encodeBytes bytes)

/-- All values that a byte string gives are six-bit values. -/
theorem sextets_lt (bytes : List UInt8) : ∀ value ∈ sextets bytes, value < 64 := by
  fun_induction sextets bytes with
  | case1 => simp
  | case2 a => have := a.toNat_lt; simp; omega
  | case3 a b => have := a.toNat_lt; have := b.toNat_lt; simp; omega
  | case4 a b c rest ih =>
    have := a.toNat_lt; have := b.toNat_lt; have := c.toNat_lt
    simp only [List.mem_cons, forall_eq_or_imp]
    exact ⟨by omega, by omega, by omega, by omega, ih⟩

/-- Every whole group of three bytes gives four symbols, and a rest one symbol more than its bytes.
-/
theorem length_sextets (bytes : List UInt8) :
    (sextets bytes).length = (4 * bytes.length + 2) / 3 := by
  fun_induction sextets bytes with
  | case1 => rfl
  | case2 => simp
  | case3 => simp
  | case4 a b c rest ih => simp only [List.length_cons, ih]; omega

@[simp] theorem length_unpadded (bytes : List UInt8) :
    (unpadded bytes).length = (4 * bytes.length + 2) / 3 := by
  simp [unpadded, length_sextets]

theorem isSymbol_of_mem_unpadded {bytes : List UInt8} {byte : UInt8} (h : byte ∈ unpadded bytes) :
    isSymbol byte = true := by
  obtain ⟨value, mem, rfl⟩ := List.mem_map.1 h
  exact isSymbol_symbol (sextets_lt bytes value mem)

/-- A base64 text is ASCII, so its bytes are the ones it was made from. -/
theorem bytes_encode (bytes : List UInt8) : Text.bytes (encode bytes) = encodeBytes bytes := by
  refine Text.bytes_ofAscii fun b hb => ?_
  rcases List.mem_append.1 hb with h | h
  · obtain ⟨value, _, rfl⟩ := List.mem_map.1 h
    exact symbol_lt value
  · rw [List.eq_of_mem_replicate h]
    decide

end KeyAgreement.Base64
