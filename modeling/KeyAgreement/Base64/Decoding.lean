import KeyAgreement.Base64.Encoding

/-!
# Reading base64

A text is read in groups of four symbols; only the last group may be short, and it must then be
filled up with padding. The unused low bits of its last symbol are ignored, so several texts can
stand for the same bytes.

Which fault is reported follows one order. A text of `4n + 1` bytes whose last byte could stand
nowhere is refused for that byte; after that the first misplaced byte from the left counts, and a
last group that holds only legal bytes but has the wrong shape comes last. Padding is no symbol, so
padding in the first two places of a group is a misplaced byte like any other.
-/

namespace KeyAgreement.Base64

/-- Why a text is not base64. -/
inductive Fault where
  /-- A byte that may not stand at this offset. -/
  | invalidSymbol (byte : UInt8) (offset : Nat)
  /-- A last group of a single symbol, which is less than one byte; counts all symbols of the text.
  -/
  | invalidLength (symbols : Nat)
  /-- A last group that is not filled up to four. -/
  | invalidPadding
deriving DecidableEq, Repr

/-- The wording of a fault. Offsets are counted in bytes of the text. -/
def Fault.message : Fault → String
  | .invalidSymbol byte offset => s!"Invalid symbol {byte.toNat}, offset {offset}."
  | .invalidLength symbols => s!"Invalid input length: {symbols}"
  | .invalidPadding => "Invalid padding"

/-! ## Groups -/

/-- The byte that the first two values of a group hold. -/
def firstByte (s t : Nat) : UInt8 := UInt8.ofNat (s * 4 + t / 16)

/-- The byte that the second and third value of a group hold. -/
def secondByte (t u : Nat) : UInt8 := UInt8.ofNat (t % 16 * 16 + u / 4)

/-- The byte that the last two values of a group hold. -/
def thirdByte (u v : Nat) : UInt8 := UInt8.ofNat (u % 4 * 64 + v)

/-- The value of the byte at an offset, which must be a symbol. -/
def sextetAt (offset : Nat) (byte : UInt8) : Except Fault Nat :=
  match sextet byte with
  | some value => .ok value
  | none => .error (.invalidSymbol byte offset)

/-- The three bytes of a full group that starts at an offset. -/
def decodeGroup (offset : Nat) (a b c d : UInt8) : Except Fault (List UInt8) := do
  let s ← sextetAt offset a
  let t ← sextetAt (offset + 1) b
  let u ← sextetAt (offset + 2) c
  let v ← sextetAt (offset + 3) d
  return [firstByte s t, secondByte t u, thirdByte u v]

/-- The end of a last group after two values: two more places, each a symbol or padding, but no
symbol after padding. -/
def decodeEnd (offset s t : Nat) : List UInt8 → Except Fault (List UInt8)
  | [c, d] =>
    if c = padding then
      if d = padding then .ok [firstByte s t] else .error (.invalidSymbol padding offset)
    else do
      let u ← sextetAt offset c
      if d = padding then return [firstByte s t, secondByte t u]
      let v ← sextetAt (offset + 1) d
      return [firstByte s t, secondByte t u, thirdByte u v]
  | [c] =>
    if c = padding then .error .invalidPadding
    else do
      let _ ← sextetAt offset c
      throw .invalidPadding
  | _ => .error .invalidPadding

/-- The bytes of the last group, which holds four bytes at most. -/
def decodeLast (offset : Nat) : List UInt8 → Except Fault (List UInt8)
  | [] => .ok []
  | [a] => do
    let _ ← sextetAt offset a
    throw (.invalidLength (offset + 1))
  | a :: b :: rest => do
    let s ← sextetAt offset a
    let t ← sextetAt (offset + 1) b
    decodeEnd (offset + 2) s t rest

/-- The bytes of a text that starts at an offset: full groups as long as more follows, then the
last. -/
def decodeFrom (offset : Nat) : List UInt8 → Except Fault (List UInt8)
  | a :: b :: c :: d :: e :: rest => do
    let group ← decodeGroup offset a b c d
    let others ← decodeFrom (offset + 4) (e :: rest)
    return group ++ others
  | last => decodeLast offset last

/-! ## Texts -/

/-- The last byte of a text one longer than its whole groups, if that byte is neither symbol nor
padding. -/
def strayByte? (text : List UInt8) : Option UInt8 :=
  if text.length % 4 = 1 then text.getLast?.filter fun b => b != padding && !isSymbol b else none

/-- The bytes that a text in base64 stands for. -/
def decodeBytes (text : List UInt8) : Except Fault (List UInt8) :=
  match strayByte? text with
  | some byte => .error (.invalidSymbol byte (text.length - 1))
  | none => decodeFrom 0 text

/-- The bytes that a text in base64 stands for. -/
def decode (text : String) : Except Fault (List UInt8) := decodeBytes (Text.bytes text)

end KeyAgreement.Base64
