import KeyAgreement.JsonLayout
import KeyAgreement.LabelExpansion
import KeyAgreement.ModpGroup.Standard
import KeyAgreement.SharedSecret

/-!
# Reference vectors

A file of worked examples by which other implementations can be checked: three exchanges between
keys that labels determine, and six byte strings with their tokens. The file depends on nothing, so
it is the same whenever it is written.
-/

namespace KeyAgreement.ReferenceVectors

/-- A worked exchange between two peers. -/
structure WorkedExchange where
  /-- The name of the exchange. -/
  name : String
  /-- The keys of the first peer. -/
  alice : KeyTokens
  /-- The keys of the second peer. -/
  bob : KeyTokens
  /-- The token of the secret that the first peer arrives at. -/
  secret : String

/-- The pairs of peers that meet: the name of the exchange and the labels of both. -/
def pairings : List (String × String × String) :=
  [("alice-bob", "alice", "bob"), ("carol-dave", "carol", "dave"), ("erin-frank", "erin", "frank")]

/-- The byte strings that are written as tokens, by name. -/
def sampleBytes : List (String × List UInt8) :=
  [("empty", []), ("one-byte", [0xff]), ("two-bytes", [0x01, 0x02]),
    ("three-bytes", [0x00, 0x01, 0x02]), ("four-bytes", [0xde, 0xad, 0xbe, 0xef]),
    ("six-bytes", [0x00, 0xff, 0x00, 0xff, 0x00, 0xff])]

/-- The tokens of the key pair that a label determines. -/
def labelled (G : ModpGroup) (label : String) : Except Fault KeyTokens := do
  let pair ← (KeyPair.ofExponent G (LabelExpansion.exponent G label)).mapError Fault.keyGeneration
  (pair.tokens G).mapError Fault.encoding

/-- The exchange between the peers of two labels. -/
def workedExchange (G : ModpGroup) :
    String × String × String → Logged (Except Fault WorkedExchange)
  | (name, aliceLabel, bobLabel) =>
    match labelled G aliceLabel, labelled G bobLabel with
    | .error cause, _ | _, .error cause => .silent (.error cause)
    | .ok alice, .ok bob =>
      (SharedSecret.derive G alice.privateToken bob.publicToken).map fun derived =>
        derived.map fun secret => ⟨name, alice, bob, secret⟩

/-- The exchanges of a list of labels, up to the first that fails. -/
def workedExchanges (G : ModpGroup) :
    List (String × String × String) → Logged (Except Fault (List WorkedExchange))
  | [] => .silent (.ok [])
  | labels :: rest =>
    (workedExchange G labels).andThen fun first =>
      (workedExchanges G rest).map fun others => others.map (first :: ·)

/-- A worked exchange as an object of the file, so many levels deep. -/
def WorkedExchange.text (depth : Nat) (c : WorkedExchange) : String :=
  JsonLayout.object depth
    [("name", JsonLayout.quoted c.name),
      ("alice_private", JsonLayout.quoted c.alice.privateToken),
      ("alice_public", JsonLayout.quoted c.alice.publicToken),
      ("bob_private", JsonLayout.quoted c.bob.privateToken),
      ("bob_public", JsonLayout.quoted c.bob.publicToken),
      ("shared_secret", JsonLayout.quoted c.secret)]

/-- A byte string and its token as an object of the file, so many levels deep. -/
def sampleText (depth : Nat) : String × List UInt8 → String
  | (name, bytes) =>
    JsonLayout.object depth
      [("name", JsonLayout.quoted name),
        ("bytes_hex", JsonLayout.quoted (Hex.encode bytes)),
        ("encoded", JsonLayout.quoted (Token.encode bytes))]

/-- The text of the file that holds these exchanges of a group. -/
def fileText (G : ModpGroup) (exchanges : List WorkedExchange) : String :=
  JsonLayout.object 0
    [("version", "1"),
      ("prime_hex", JsonLayout.quoted (Hex.encode (BigEndian.minimal G.modulus))),
      ("generator", toString G.generator),
      ("exchange_cases", JsonLayout.array 1 (exchanges.map (·.text 2))),
      ("codec_cases", JsonLayout.array 1 (sampleBytes.map (sampleText 2)))]

/-- The file for the standard group. -/
def file : Logged (Except Fault String) :=
  (workedExchanges .standard pairings).map fun exchanges => exchanges.map (fileText .standard)

end KeyAgreement.ReferenceVectors
