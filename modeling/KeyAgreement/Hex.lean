import KeyAgreement.Text

/-!
# Hexadecimal texts

A byte is written with two lowercase digits. A reader takes digits of either case, two bytes of text
at a time, and accepts as a pair also a plus sign with one digit behind it: a pair is read as a
short number, and a number may carry its sign.

A text of odd length is refused as a whole; otherwise the first bad pair is named by its offset.
Both are counted in bytes, and a pair that holds any part of a character outside ASCII is bad.
-/

namespace KeyAgreement.Hex

/-- Why a text is not hexadecimal. -/
inductive Fault where
  | oddLength
  /-- The pair of bytes at this offset is no two-digit number. -/
  | invalidPair (offset : Nat)
deriving DecidableEq, Repr

/-- The wording of a fault. The offset is counted in bytes of the text. -/
def Fault.message : Fault → String
  | .oddLength => "odd-length hex string"
  | .invalidPair offset => s!"invalid hex at offset {offset}"

/-! ## Digits -/

/-- The bytes of the sixteen lowercase digits. -/
def digits : List UInt8 := [48, 49, 50, 51, 52, 53, 54, 55, 56, 57, 97, 98, 99, 100, 101, 102]

/-- The bytes of the digits as capitals. -/
def capitals : List UInt8 := [48, 49, 50, 51, 52, 53, 54, 55, 56, 57, 65, 66, 67, 68, 69, 70]

/-- The sign that may stand before a single digit. -/
def plus : UInt8 := 43

/-- The lowercase digit of a value below sixteen. -/
def digit (value : Nat) : UInt8 := digits.getD value 0

/-- The four-bit value of a digit of either case. -/
def nibble (byte : UInt8) : Option Nat := (digits.idxOf? byte).or (capitals.idxOf? byte)

theorem nibble_digit {value : Nat} (h : value < 16) : nibble (digit value) = some value := by
  have all : ∀ v : Fin 16, nibble (digit v) = some v.val := by decide
  exact all ⟨value, h⟩

theorem digit_lt (value : Nat) : digit value < 128 := by
  by_cases h : value < 16
  · have all : ∀ v : Fin 16, digit v < 128 := by decide
    exact all ⟨value, h⟩
  · have : digits.length ≤ value := by simpa [digits] using Nat.le_of_not_lt h
    simp [digit, List.getElem?_eq_none this]

/-! ## Writing -/

/-- Two digits for every byte, as the bytes of an ASCII text. -/
def encodeBytes (bytes : List UInt8) : List UInt8 :=
  bytes.flatMap fun b => [digit (b.toNat / 16), digit (b.toNat % 16)]

/-- The lowercase hexadecimal form of a byte string. -/
def encode (bytes : List UInt8) : String := Text.ofAscii (encodeBytes bytes)

theorem bytes_encode (bytes : List UInt8) : Text.bytes (encode bytes) = encodeBytes bytes := by
  refine Text.bytes_ofAscii fun b hb => ?_
  obtain ⟨c, _, hc⟩ := List.mem_flatMap.1 hb
  simp only [List.mem_cons, List.not_mem_nil, or_false] at hc
  rcases hc with rfl | rfl <;> exact digit_lt _

/-! ## Reading -/

/-- The byte that a pair stands for: two digits, or a plus sign and one digit. -/
def pair (high low : UInt8) : Option UInt8 := do
  let units ← nibble low
  if high = plus then return UInt8.ofNat units
  let sixteens ← nibble high
  return UInt8.ofNat (16 * sixteens + units)

/-- The bytes of a text of pairs that starts at an offset. -/
def decodePairs (offset : Nat) : List UInt8 → Except Fault (List UInt8)
  | high :: low :: rest =>
    match pair high low with
    | none => .error (.invalidPair offset)
    | some byte => do
      let others ← decodePairs (offset + 2) rest
      return byte :: others
  | _ => .ok []

/-- The bytes that a hexadecimal text stands for, from the bytes of the text. -/
def decodeBytes (text : List UInt8) : Except Fault (List UInt8) :=
  if text.length % 2 = 1 then .error .oddLength else decodePairs 0 text

/-- The bytes that a hexadecimal text stands for. -/
def decode (text : String) : Except Fault (List UInt8) := decodeBytes (Text.bytes text)

end KeyAgreement.Hex
