/-!
# Texts as bytes

Tokens travel as text, but every rule about them is a rule about bytes: lengths are taken modulo
four in bytes, faults are placed by byte offset, and a character outside ASCII counts as the several
bytes it is written with. So a text is read through `Text.bytes`, its UTF-8 form, and written back
with `Text.ofAscii`, which takes one character per byte.

The main statement is `bytes_ofAscii`: on ASCII bytes writing and reading are inverse, so a codec
proved on bytes is proved on texts.
-/

namespace KeyAgreement.Text

/-- The UTF-8 bytes of a text, in order. -/
def bytes (text : String) : List UInt8 := text.toUTF8.data.toList

/-- The text with one character for each byte, the character of the same number. It is meant for
bytes below 128, where that character is written with the byte itself. -/
def ofAscii (bs : List UInt8) : String := String.ofList (bs.map Char.ofUInt8)

@[simp] theorem bytes_ofList (cs : List Char) :
    bytes (String.ofList cs) = cs.flatMap String.utf8EncodeChar := by
  simp [bytes, List.utf8Encode]

/-- An ASCII character is written with one byte, the one it was made from. -/
theorem utf8EncodeChar_ofUInt8 {b : UInt8} (h : b < 128) :
    String.utf8EncodeChar (Char.ofUInt8 b) = [b] := by
  have h' : b.toNat ≤ 127 := by
    have := UInt8.lt_iff_toNat_lt.1 h
    simp at this
    omega
  have hv : (Char.ofUInt8 b).val.toNat = b.toNat := UInt8.toNat_toUInt32 b
  simp [String.utf8EncodeChar, hv, h']

/-- Reading back the bytes of an ASCII text gives the bytes it was made from. -/
theorem bytes_ofAscii {bs : List UInt8} (h : ∀ b ∈ bs, b < 128) : bytes (ofAscii bs) = bs := by
  simp only [ofAscii, bytes_ofList]
  induction bs with
  | nil => rfl
  | cons b bs ih =>
    have hb := utf8EncodeChar_ofUInt8 (h b (by simp))
    have ht := ih fun c hc => h c (by simp [hc])
    simp [hb, ht]

end KeyAgreement.Text
