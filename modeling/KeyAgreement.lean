import KeyAgreement.Base64.Alphabet
import KeyAgreement.Base64.Decoding
import KeyAgreement.Base64.Encoding
import KeyAgreement.BigEndian
import KeyAgreement.Entropy
import KeyAgreement.Entropy.HashStream
import KeyAgreement.Entropy.Tape
import KeyAgreement.Event
import KeyAgreement.Fault
import KeyAgreement.Hex
import KeyAgreement.JsonLayout
import KeyAgreement.KeyPair
import KeyAgreement.KeyPair.Generation
import KeyAgreement.LabelExpansion
import KeyAgreement.ModpGroup
import KeyAgreement.ModpGroup.Standard
import KeyAgreement.ModularPower
import KeyAgreement.PublicValue
import KeyAgreement.ReferenceVectors
import KeyAgreement.SelfTest
import KeyAgreement.Service
import KeyAgreement.Session
import KeyAgreement.Sha256
import KeyAgreement.SharedSecret
import KeyAgreement.Text
import KeyAgreement.Token
import KeyAgreement.Proofs.KeyPairInvariant
import KeyAgreement.Proofs.SafePrime
import KeyAgreement.Proofs.Exchange
import KeyAgreement.Proofs.SafeExchange
import KeyAgreement.Proofs.SampleScan
import KeyAgreement.Proofs.Drawing
import KeyAgreement.Proofs.SafeExponents
import KeyAgreement.Proofs.SampleCount
import KeyAgreement.Proofs.UnbiasedDraw
import KeyAgreement.Proofs.TokenForms
import KeyAgreement.Proofs.DerivationOrder
import KeyAgreement.Proofs.PeerVetting
import KeyAgreement.Proofs.Disclosure
import KeyAgreement.Proofs.KeyPairTokens
import KeyAgreement.Proofs.SessionHistory
import KeyAgreement.Proofs.Lifecycle
import KeyAgreement.Proofs.Sharing
import KeyAgreement.Proofs.HandleIsolation
import KeyAgreement.Proofs.TokenGrammar
import KeyAgreement.Proofs.PublicTokens
import KeyAgreement.Proofs.HexFaults
import KeyAgreement.Proofs.Warnings
import KeyAgreement.Proofs.Admissibility
import KeyAgreement.Proofs.LabelExponents
import KeyAgreement.Proofs.FixedWidth
import KeyAgreement.Proofs.SampleYield
