import KeyAgreement.BigEndian
import KeyAgreement.Base64.Decoding
import KeyAgreement.Hex

/-!
# Faults

Everything that can go wrong, as causes. Each kind of fault has a stable code for machines and a
wording for people; the wording of a kind that has causes of its own ends in the wording of the
cause, so a fault that was met inside another operation shows every step that led to it.

`Fault` is the type of a whole operation. The parts have narrower types (`GroupFault`, `KeyFault`,
…), so that a function's type already says what it can fail with.
-/

namespace KeyAgreement

/-! ## Causes -/

/-- Why bytes and text could not be turned into each other. -/
inductive EncodingFault where
  | base64 (cause : Base64.Fault)
  | hex (cause : Hex.Fault)
  | tooWide (cause : BigEndian.TooWide)
deriving DecidableEq, Repr

/-- Why a modulus and a generator describe no group for an exchange. -/
inductive GroupFault where
  /-- The modulus is even or not above five. -/
  | modulus
  /-- The generator is not strictly between one and the modulus less one. -/
  | generator
deriving DecidableEq, Repr

/-- Why a source of random bytes did not serve a request. What there is to say differs from source
to source, so the source words it itself. -/
structure EntropyFault where
  /-- The wording of the source. -/
  message : String
deriving DecidableEq, Repr

/-- Why there is no key pair. -/
inductive KeyFault where
  | zeroExponent
  | encoding (cause : EncodingFault)
  /-- The public value of the exponent is one that no peer would accept. -/
  | degeneratePublicValue
  | entropy (cause : EntropyFault)
  /-- Too many samples in a row lay outside the range of exponents. -/
  | samplingExhausted
  /-- Too many sampled exponents had a degenerate public value. -/
  | noUsableExponent
deriving DecidableEq, Repr

/-- Why no secret could be derived from tokens that are in order. -/
inductive DerivationFault where
  /-- The private token holds no usable exponent. -/
  | ownKey (cause : KeyFault)
  /-- The common value is one that anybody could guess. -/
  | degenerateShared
deriving DecidableEq, Repr

/-- Why an operation failed. -/
inductive Fault where
  | group (cause : GroupFault)
  | notRunning
  | alreadyRunning
  /-- A token holds a character that is no base64 symbol. -/
  | invalidCharset
  | encoding (cause : EncodingFault)
  | invalidPublicKey
  | keyGeneration (cause : KeyFault)
  | derivation (cause : DerivationFault)
deriving DecidableEq, Repr

/-! ## Kinds and their wording -/

/-- The eight kinds of fault, without their causes. -/
inductive Fault.Kind where
  | group
  | notRunning
  | alreadyRunning
  | invalidCharset
  | encoding
  | invalidPublicKey
  | keyGeneration
  | derivation
deriving DecidableEq, Repr

/-- All kinds, in the order in which their codes are listed. -/
def Fault.Kind.all : List Kind :=
  [group, notRunning, alreadyRunning, invalidCharset, encoding, invalidPublicKey, keyGeneration,
    derivation]

/-- The stable name of a kind, for machines. -/
def Fault.Kind.code : Kind → String
  | group => "INIT_FAILED"
  | notRunning => "NOT_INITIALIZED"
  | alreadyRunning => "ALREADY_INITIALIZED"
  | invalidCharset => "INVALID_CHARSET"
  | encoding => "ENCODING_FAILED"
  | invalidPublicKey => "INVALID_PUBLIC_KEY"
  | keyGeneration => "KEYGEN_FAILED"
  | derivation => "DERIVE_FAILED"

/-- All codes, in the order of the kinds. -/
def Fault.codes : List String := Kind.all.map Kind.code

/-- Whether a text is the code of some kind of fault. -/
def Fault.isCode (text : String) : Bool := codes.contains text

/-- The wording of a fault of a kind. Four kinds have causes and end in the wording of the cause;
the others say all there is. -/
def Fault.Kind.message (detail : String) : Kind → String
  | group => "Init error: " ++ detail
  | notRunning => "DH1080 is not initialized"
  | alreadyRunning => "DH1080 is already initialized"
  | invalidCharset => "Invalid charset in key token"
  | encoding => "Encoding error: " ++ detail
  | invalidPublicKey => "Invalid public key"
  | keyGeneration => "Keygen error: " ++ detail
  | derivation => "Derive error: " ++ detail

/-! ## Wording of causes -/

/-- The wording of the cause. A fault of base64 says that it is one, since its reader words it
without saying so. -/
def EncodingFault.message : EncodingFault → String
  | base64 cause => "invalid base64: " ++ cause.message
  | hex cause => cause.message
  | tooWide cause => cause.message

/-- The wording of the cause, which is the condition that a group must meet. -/
def GroupFault.message : GroupFault → String
  | modulus => "modulus must be odd and > 5"
  | generator => "generator must satisfy 1 < g < p - 1"

/-- The wording of the cause. An encoding fault keeps the wording of its kind, and a source of
random bytes has the last word on its own fault. -/
def KeyFault.message : KeyFault → String
  | zeroExponent => "private exponent is zero"
  | encoding cause => Fault.Kind.encoding.message cause.message
  | degeneratePublicValue => "private exponent yields a degenerate public value"
  | entropy cause => "rng failure: " ++ cause.message
  | samplingExhausted => "rejection sampling exhausted"
  | noUsableExponent => "no usable private exponent found"

/-- The wording of the cause. A fault with the own key is worded as a fault of key generation, so
the step in between stays visible. -/
def DerivationFault.message : DerivationFault → String
  | ownKey cause => Fault.Kind.keyGeneration.message cause.message
  | degenerateShared => "degenerate shared value"

/-- The kind of a fault. -/
def Fault.kind : Fault → Kind
  | group _ => .group
  | notRunning => .notRunning
  | alreadyRunning => .alreadyRunning
  | invalidCharset => .invalidCharset
  | encoding _ => .encoding
  | invalidPublicKey => .invalidPublicKey
  | keyGeneration _ => .keyGeneration
  | derivation _ => .derivation

/-- The wording of the cause of a fault, empty for a fault that has none. -/
def Fault.detail : Fault → String
  | group cause => cause.message
  | encoding cause => cause.message
  | keyGeneration cause => cause.message
  | derivation cause => cause.message
  | notRunning | alreadyRunning | invalidCharset | invalidPublicKey => ""

/-- The stable name of a fault, which depends on its kind alone. -/
def Fault.code (fault : Fault) : String := fault.kind.code

/-- The wording of a fault: the wording of its kind, with the cause where it has one. -/
def Fault.message (fault : Fault) : String := fault.kind.message fault.detail

theorem Fault.Kind.mem_all (kind : Kind) : kind ∈ all := by
  cases kind <;> decide

/-- The code of a fault is always a known one. -/
theorem Fault.isCode_code (fault : Fault) : isCode fault.code = true := by
  simp only [isCode, codes, List.contains_iff_mem]
  exact List.mem_map_of_mem (Kind.mem_all _)

end KeyAgreement
