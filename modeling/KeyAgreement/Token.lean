import KeyAgreement.Base64.Decoding

/-!
# Key tokens

Keys and secrets travel over chat lines as base64 without padding, because `=` does not survive
there. A text that has lost its padding says by its length what was lost; a text that never had any
would look the same after a stray cut, so it carries the marker `A` behind it. A reader drops the
marker again exactly when it sees one symbol more than whole groups and that symbol is the marker,
puts the padding back, and reads base64.

The marker is itself a symbol, so a cut-off symbol `A` and a marker cannot be told apart; no written
token needs that, since base64 never has `4n + 1` symbols.
-/

namespace KeyAgreement.Token

/-- The marker behind a text that had no padding to lose. -/
def marker : UInt8 := 65

/-! ## Writing -/

/-- The token of a byte string, as the bytes of an ASCII text. -/
def encodeBytes (bytes : List UInt8) : List UInt8 :=
  if Base64.paddingCount bytes.length = 0 then Base64.unpadded bytes ++ [marker]
  else Base64.unpadded bytes

/-- The token of a byte string. -/
def encode (bytes : List UInt8) : String := Text.ofAscii (encodeBytes bytes)

/-! ## Reading -/

/-- A token without its marker. -/
def dropMarker (token : List UInt8) : List UInt8 :=
  if token.length % 4 = 1 ∧ token.getLast? = some marker then token.dropLast else token

/-- A text filled up to whole groups of four with padding. -/
def fillUp (text : List UInt8) : List UInt8 :=
  text ++ List.replicate ((4 - text.length % 4) % 4) Base64.padding

/-- The bytes of a token given as the bytes of its text. -/
def decodeBytes (token : List UInt8) : Except Base64.Fault (List UInt8) :=
  Base64.decodeBytes (fillUp (dropMarker token))

/-- The bytes that a token stands for. -/
def decode (token : String) : Except Base64.Fault (List UInt8) := decodeBytes (Text.bytes token)

/-- Whether a text is made of symbols only, as every token is. -/
def isSymbolic (token : String) : Bool := (Text.bytes token).all Base64.isSymbol

/-! ## Shape -/

/-- A token is ASCII, so its bytes are the ones it was made from. -/
theorem bytes_encode (bytes : List UInt8) : Text.bytes (encode bytes) = encodeBytes bytes := by
  refine Text.bytes_ofAscii fun b hb => ?_
  have symbolic : ∀ c ∈ Base64.unpadded bytes, c < 128 := fun c hc => by
    obtain ⟨value, _, rfl⟩ := List.mem_map.1 hc
    exact Base64.symbol_lt value
  unfold encodeBytes at hb
  split at hb
  · rcases List.mem_append.1 hb with h | h
    · exact symbolic b h
    · rw [List.mem_singleton.1 h]
      decide
  · exact symbolic b hb

theorem isSymbolic_encode (bytes : List UInt8) : isSymbolic (encode bytes) = true := by
  rw [isSymbolic, bytes_encode, encodeBytes]
  split
  · simp only [List.all_append, List.all_cons, List.all_nil, Bool.and_true, Bool.and_eq_true]
    exact ⟨List.all_eq_true.2 fun b hb => Base64.isSymbol_of_mem_unpadded hb, by decide⟩
  · exact List.all_eq_true.2 fun b hb => Base64.isSymbol_of_mem_unpadded hb

/-- The length of the token of so many bytes: one more than whole groups when nothing was cut off,
and two or three more when padding was. -/
def length (size : Nat) : Nat := (4 * size + 2) / 3 + if size % 3 = 0 then 1 else 0

/-- The length of a token depends on the number of bytes alone. -/
@[simp] theorem length_encodeBytes (bytes : List UInt8) :
    (encodeBytes bytes).length = length bytes.length := by
  unfold encodeBytes Base64.paddingCount length
  split <;> split <;> simp <;> omega

end KeyAgreement.Token
