import KeyAgreement.BigEndian

/-!
# SHA-256

The hash function of FIPS 180-4 with a digest of 32 bytes. A message is padded to whole blocks of 64
bytes, each block is expanded to 64 words, and 64 rounds mix them into a state of eight words that
the next block starts from. Additions are modulo `2 ^ 32`, which is what `UInt32` does.

Nothing in this library depends on how the digest is computed except its length, `length_digest`.
-/

namespace KeyAgreement.Sha256

/-! ## Words -/

/-- Rotation to the right by `n` places, for `0 < n < 32`. -/
def rotateRight (w n : UInt32) : UInt32 := (w >>> n) ||| (w <<< (32 - n))

/-- The mixing function of the first schedule term. -/
def smallSigma0 (w : UInt32) : UInt32 := rotateRight w 7 ^^^ rotateRight w 18 ^^^ (w >>> 3)

/-- The mixing function of the last schedule term. -/
def smallSigma1 (w : UInt32) : UInt32 := rotateRight w 17 ^^^ rotateRight w 19 ^^^ (w >>> 10)

/-- The mixing function of the first state word. -/
def bigSigma0 (w : UInt32) : UInt32 := rotateRight w 2 ^^^ rotateRight w 13 ^^^ rotateRight w 22

/-- The mixing function of the fifth state word. -/
def bigSigma1 (w : UInt32) : UInt32 := rotateRight w 6 ^^^ rotateRight w 11 ^^^ rotateRight w 25

/-- Takes each bit from `y` where `x` has a one and from `z` where it has a zero. -/
def choose (x y z : UInt32) : UInt32 := (x &&& y) ^^^ (~~~x &&& z)

/-- Takes each bit as most of the three words have it. -/
def majority (x y z : UInt32) : UInt32 := (x &&& y) ^^^ (x &&& z) ^^^ (y &&& z)

/-- The words of a byte string, four bytes each and most significant byte first. -/
def words : List UInt8 → List UInt32
  | a :: b :: c :: d :: rest =>
    ((a.toUInt32 <<< 24) ||| (b.toUInt32 <<< 16) ||| (c.toUInt32 <<< 8) ||| d.toUInt32)
      :: words rest
  | _ => []

/-- One constant for each round: the first 32 bits of the fractional parts of the cube roots of the
first sixty-four primes. -/
def roundConstants : List UInt32 :=
  [0x428a2f98, 0x71374491, 0xb5c0fbcf, 0xe9b5dba5, 0x3956c25b, 0x59f111f1, 0x923f82a4, 0xab1c5ed5,
    0xd807aa98, 0x12835b01, 0x243185be, 0x550c7dc3, 0x72be5d74, 0x80deb1fe, 0x9bdc06a7, 0xc19bf174,
    0xe49b69c1, 0xefbe4786, 0x0fc19dc6, 0x240ca1cc, 0x2de92c6f, 0x4a7484aa, 0x5cb0a9dc, 0x76f988da,
    0x983e5152, 0xa831c66d, 0xb00327c8, 0xbf597fc7, 0xc6e00bf3, 0xd5a79147, 0x06ca6351, 0x14292967,
    0x27b70a85, 0x2e1b2138, 0x4d2c6dfc, 0x53380d13, 0x650a7354, 0x766a0abb, 0x81c2c92e, 0x92722c85,
    0xa2bfe8a1, 0xa81a664b, 0xc24b8b70, 0xc76c51a3, 0xd192e819, 0xd6990624, 0xf40e3585, 0x106aa070,
    0x19a4c116, 0x1e376c08, 0x2748774c, 0x34b0bcb5, 0x391c0cb3, 0x4ed8aa4a, 0x5b9cca4f, 0x682e6ff3,
    0x748f82ee, 0x78a5636f, 0x84c87814, 0x8cc70208, 0x90befffa, 0xa4506ceb, 0xbef9a3f7, 0xc67178f2]

/-! ## Blocks -/

/-- The eight words that are carried from block to block. -/
structure State where
  a : UInt32
  b : UInt32
  c : UInt32
  d : UInt32
  e : UInt32
  f : UInt32
  g : UInt32
  h : UInt32

/-- The state before the first block: the first 32 bits of the fractional parts of the square roots
of the first eight primes. -/
def State.initial : State :=
  ⟨0x6a09e667, 0xbb67ae85, 0x3c6ef372, 0xa54ff53a, 0x510e527f, 0x9b05688c, 0x1f83d9ab,
    0x5be0cd19⟩

/-- The words of a state in the order in which they stand in a digest. -/
def State.toList (s : State) : List UInt32 := [s.a, s.b, s.c, s.d, s.e, s.f, s.g, s.h]

/-- The first `n` words of the schedule of a block: its own sixteen words, then each word from four
earlier ones. -/
def schedule (block : List UInt32) : (n : Nat) → Vector UInt32 n
  | 0 => #v[]
  | n + 1 =>
    let earlier := schedule block n
    if h : n < 16 then earlier.push (block.getD n 0)
    else earlier.push (smallSigma1 earlier[n - 2] + earlier[n - 7] + smallSigma0 earlier[n - 15]
      + earlier[n - 16])

/-- One round, which takes the constant of the round and a word of the schedule. -/
def round (s : State) (input : UInt32 × UInt32) : State :=
  let t₁ := s.h + bigSigma1 s.e + choose s.e s.f s.g + input.1 + input.2
  let t₂ := bigSigma0 s.a + majority s.a s.b s.c
  ⟨t₁ + t₂, s.a, s.b, s.c, s.d + t₁, s.e, s.f, s.g⟩

/-- The state after a block of sixteen words: the rounds applied to the state, added to the state.
-/
def compress (s : State) (block : List UInt32) : State :=
  let t := (roundConstants.zip (schedule block 64).toList).foldl round s
  ⟨s.a + t.a, s.b + t.b, s.c + t.c, s.d + t.d, s.e + t.e, s.f + t.f, s.g + t.g, s.h + t.h⟩

/-- The state after so many blocks, taken from the front of the words. -/
def absorb : (blocks : Nat) → State → List UInt32 → State
  | 0, s, _ => s
  | blocks + 1, s, ws => absorb blocks (compress s (ws.take 16)) (ws.drop 16)

/-! ## Messages -/

/-- The zero bytes between the closing one bit of a message of `size` bytes and its length, as few
as complete a block. -/
def paddingZeros (size : Nat) : Nat := (119 - size % 64) % 64

/-- A message completed to whole blocks: a one bit, zeros, and its length in bits. -/
def pad (message : List UInt8) : List UInt8 :=
  message ++ [0x80] ++ List.replicate (paddingZeros message.length) 0
    ++ BigEndian.padTo 8 (8 * message.length)

/-- The number of bytes of a digest. -/
def digestLength : Nat := 32

/-- The digest of a message. -/
def digest (message : List UInt8) : List UInt8 :=
  let ws := words (pad message)
  (absorb (ws.length / 16) State.initial ws).toList.flatMap fun w => BigEndian.padTo 4 w.toNat

@[simp] theorem length_digest (message : List UInt8) : (digest message).length = digestLength := by
  simp [digest, State.toList, digestLength]

end KeyAgreement.Sha256
