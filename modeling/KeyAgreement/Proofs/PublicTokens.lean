import KeyAgreement.Proofs.PeerVetting

/-!
# A public token is judged by its number

Peers differ in the width they write a public value in. Some write all keys in the width of the
group's, some leave the leading zero bytes out, and some put more in front than there is room for.
The bytes shift through the groups of base64 with every zero byte, and the token changes altogether,
but the number stays, and the number alone is judged.

The main statement is `decode_encode_eq_ite`; it also ties the check on numbers that may be negative
to the check on tokens.
-/

namespace KeyAgreement

theorem BigEndian.toNat_replicate_zero_append (k : ℕ) (bs : List UInt8) :
    toNat (List.replicate k 0 ++ bs) = toNat bs := by
  rw [toNat_append, toNat_replicate_zero, Nat.zero_mul, Nat.zero_add]

theorem Token.denotes_encode (bytes : List UInt8) :
    Denotes (encode bytes) (BigEndian.toNat bytes) :=
  denotes_of_decode (isSymbolic_encode bytes) (decode_encode bytes) rfl

theorem ModpGroup.isPublicInt_natCast {G : ModpGroup} {y : ℕ} :
    G.IsPublicInt y ↔ G.IsPublic y := Iff.rfl

theorem ModpGroup.isPublicInt_iff {G : ModpGroup} {v : ℤ} :
    G.IsPublicInt v ↔ 1 < v ∧ v < (G.modulus : ℤ) - 1 := by
  have h5 := G.five_lt_modulus
  cases v with
  | ofNat y =>
    rw [Int.ofNat_eq_natCast, isPublicInt_natCast, isPublic_iff]
    omega
  | negSucc n =>
    refine iff_of_false id ?_
    omega

namespace PublicValue

/-- The token of a number with any count of zero bytes in front is judged by the number. -/
theorem decode_encode_padded (G : ModpGroup) (k y : ℕ) :
    decode G (Token.encode (List.replicate k 0 ++ BigEndian.minimal y))
      = if 1 < y ∧ y < G.modulus - 1 then .ok y else .error .invalidPublicKey := by
  have hdenotes := Token.denotes_encode (List.replicate k 0 ++ BigEndian.minimal y)
  rw [BigEndian.toNat_replicate_zero_append, BigEndian.toNat_minimal] at hdenotes
  exact decode_of_denotes hdenotes

/-- Whatever the count of zero bytes in front, the token of a number is accepted as that number if
it lies strictly between one and the modulus less one, and refused as out of range if not. A number
that may be negative is accepted under the same bounds, so just if it is not negative and its tokens
are accepted. -/
theorem decode_encode_eq_ite (G : ModpGroup) :
    (∀ k y : ℕ, decode G (Token.encode (List.replicate k 0 ++ BigEndian.minimal y))
      = if 1 < y ∧ y < G.modulus - 1 then .ok y else .error .invalidPublicKey) ∧
    (∀ v : ℤ, G.IsPublicInt v ↔ 1 < v ∧ v < (G.modulus : ℤ) - 1) ∧
    ∀ v : ℤ, G.IsPublicInt v ↔ ∃ y : ℕ, v = y ∧
      ∀ k, decode G (Token.encode (List.replicate k 0 ++ BigEndian.minimal y)) = .ok y := by
  refine ⟨decode_encode_padded G, fun v => ModpGroup.isPublicInt_iff, fun v => ?_⟩
  constructor
  · intro hv
    have hlt := (ModpGroup.isPublicInt_iff.1 hv).1
    have hle : 0 ≤ v := by omega
    obtain ⟨y, rfl⟩ := Int.eq_ofNat_of_zero_le hle
    refine ⟨y, rfl, fun k => ?_⟩
    rw [decode_encode_padded, if_pos (ModpGroup.isPublic_iff.1 hv)]
  · rintro ⟨y, rfl, hy⟩
    have haccepted := (decode_encode_padded G 0 y).symm.trans (hy 0)
    by_cases hrange : 1 < y ∧ y < G.modulus - 1
    · exact ModpGroup.isPublicInt_natCast.2 (ModpGroup.isPublic_iff.2 hrange)
    · rw [if_neg hrange] at haccepted
      cases haccepted

/-- Modulo 15 the value 13 is accepted with no zero byte in front and with three of them, and 14 is
not. -/
example : decode .mod15 "DQ" = .ok 13 ∧ decode .mod15 "AAAADQ" = .ok 13 ∧
    decode .mod15 "AA4" = .error .invalidPublicKey :=
  ⟨rfl, rfl, rfl⟩

end PublicValue

end KeyAgreement
