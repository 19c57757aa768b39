import KeyAgreement.Entropy
import KeyAgreement.Sha256

/-!
# A stream of digests

Random bytes that a seed determines: the digests of the seed with a counter behind it, one after the
other. It serves programs that have no other randomness at hand and runs that are to be repeated;
what it serves is as secret as its seed.
-/

namespace KeyAgreement

/-- A seed and the counter of the next digest. -/
structure HashStream where
  /-- The seed. -/
  seed : List UInt8
  /-- The counter of the next digest. -/
  counter : Nat := 0
deriving DecidableEq, Repr

namespace HashStream

/-- The digest at a counter. -/
def block (seed : List UInt8) (counter : Nat) : List UInt8 :=
  Sha256.digest (seed ++ BigEndian.padTo 8 counter)

/-- Streams of digests as a source of random bytes: a request takes as many whole digests as it
needs and drops the rest of the last. -/
def source : Entropy HashStream where
  fill size stream :=
    let blocks := (size + 31) / 32
    let bytes := ((List.range' stream.counter blocks).flatMap (block stream.seed)).toArray
    (.ok (Vector.ofFn fun i => bytes.getD i 0), { stream with counter := stream.counter + blocks })

end HashStream

end KeyAgreement
