/-!
# The base64 alphabet

Base64 writes six bits as one symbol. The sixty-four symbols are capitals, small letters, digits,
`+` and `/`, in this order; a sixty-fifth byte, `=`, fills a short group up and stands for no bits.
`symbol` and `sextet` are the two directions of the table, and `sextet_symbol` and
`symbol_of_sextet` say that they are inverse.
-/

namespace KeyAgreement.Base64

/-- The symbols in the order of the six-bit values they stand for. -/
def alphabet : String := "ABCDEFGHIJKLMNOPQRSTUVWXYZabcdefghijklmnopqrstuvwxyz0123456789+/"

/-- The same symbols as bytes. -/
def symbols : List UInt8 :=
  [65, 66, 67, 68, 69, 70, 71, 72, 73, 74, 75, 76, 77, 78, 79, 80, 81, 82, 83, 84, 85, 86, 87,
    88, 89, 90, 97, 98, 99, 100, 101, 102, 103, 104, 105, 106, 107, 108, 109, 110, 111, 112,
    113, 114, 115, 116, 117, 118, 119, 120, 121, 122, 48, 49, 50, 51, 52, 53, 54, 55, 56, 57,
    43, 47]

/-- The byte that fills a short group up. -/
def padding : UInt8 := 61

/-- The symbol of a six-bit value. -/
def symbol (value : Nat) : UInt8 := symbols.getD value padding

/-- The six-bit value of a symbol; other bytes have none. -/
def sextet (byte : UInt8) : Option Nat := symbols.idxOf? byte

/-- Whether a byte is one of the sixty-four symbols. -/
def isSymbol (byte : UInt8) : Bool := (sextet byte).isSome

/-- The list of bytes is the alphabet as it is written. -/
theorem symbols_eq_alphabet : alphabet.toList.map (fun c => UInt8.ofNat c.toNat) = symbols := by
  decide

theorem sextet_symbol {value : Nat} (h : value < 64) : sextet (symbol value) = some value := by
  have all : ∀ v : Fin 64, sextet (symbol v) = some v.val := by decide
  exact all ⟨value, h⟩

/-- Only its own symbol stands for a value, and all values are below sixty-four. -/
theorem symbol_of_sextet {byte : UInt8} {value : Nat} (h : sextet byte = some value) :
    symbol value = byte ∧ value < 64 := by
  obtain ⟨lt, eq, _⟩ := List.idxOf?_eq_some_iff.1 h
  exact ⟨by simp [symbol, lt, eq], lt⟩

theorem isSymbol_symbol {value : Nat} (h : value < 64) : isSymbol (symbol value) = true := by
  simp [isSymbol, sextet_symbol h]

/-- The padding byte is no symbol. -/
@[simp] theorem isSymbol_padding : isSymbol padding = false := by decide

/-- Symbols are ASCII. -/
theorem symbol_lt (value : Nat) : symbol value < 128 := by
  by_cases h : value < 64
  · have all : ∀ v : Fin 64, symbol v < 128 := by decide
    exact all ⟨value, h⟩
  · have : symbols.length ≤ value := by simpa [symbols] using Nat.le_of_not_lt h
    simp [symbol, List.getElem?_eq_none this, padding]

end KeyAgreement.Base64
