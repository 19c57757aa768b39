import KeyAgreement.Proofs.Texts
import KeyAgreement.Token

/-!
# Tokens read back

Reading base64 takes symbols for six-bit values and packs the values into bytes. `octets` is the
packing alone, so what the reader does on a text of symbols is one equation, `decodeBytes_fillUp`,
and every statement about reading symbols is one about `octets`.

The main statement is `Token.decode_encode`: a written token stands for the bytes it was written
from, whatever their number.
-/

namespace KeyAgreement.Base64

/-- The bytes that six-bit values stand for, three bytes for four values. The low bits that a short
last group does not use are dropped. -/
def octets : List Nat → List UInt8
  | s :: t :: u :: v :: rest => firstByte s t :: secondByte t u :: thirdByte u v :: octets rest
  | [s, t, u] => [firstByte s t, secondByte t u]
  | [s, t] => [firstByte s t]
  | _ => []

/-! ## Packing undoes cutting -/

theorem firstByte_cut (a : UInt8) {low : Nat} (h : low < 16) :
    firstByte (a.toNat / 4) (a.toNat % 4 * 16 + low) = a := by
  have whole : a.toNat / 4 * 4 + (a.toNat % 4 * 16 + low) / 16 = a.toNat := by omega
  rw [firstByte, whole, UInt8.ofNat_toNat]

theorem secondByte_cut (b : UInt8) (high : Nat) {low : Nat} (h : low < 4) :
    secondByte (high * 16 + b.toNat / 16) (b.toNat % 16 * 4 + low) = b := by
  have hb := b.toNat_lt
  have whole : (high * 16 + b.toNat / 16) % 16 * 16 + (b.toNat % 16 * 4 + low) / 4 = b.toNat := by
    omega
  rw [secondByte, whole, UInt8.ofNat_toNat]

theorem thirdByte_cut (c : UInt8) (high : Nat) :
    thirdByte (high * 4 + c.toNat / 64) (c.toNat % 64) = c := by
  have hc := c.toNat_lt
  have whole : (high * 4 + c.toNat / 64) % 4 * 64 + c.toNat % 64 = c.toNat := by omega
  rw [thirdByte, whole, UInt8.ofNat_toNat]

/-- The values that a byte string is cut into pack up to that byte string. -/
theorem octets_sextets (bytes : List UInt8) : octets (sextets bytes) = bytes := by
  fun_induction sextets bytes with
  | case1 => rfl
  | case2 a =>
    have first := firstByte_cut a (by omega : 0 < 16)
    simp only [Nat.add_zero] at first
    simp only [octets, first]
  | case3 a b =>
    have hb := b.toNat_lt
    have hhigh : b.toNat / 16 < 16 := by omega
    have second := secondByte_cut b (a.toNat % 4) (by omega : 0 < 4)
    simp only [Nat.add_zero] at second
    simp only [octets, firstByte_cut a hhigh, second]
  | case4 a b c rest ih =>
    have hb := b.toNat_lt
    have hc := c.toNat_lt
    have hhigh : b.toNat / 16 < 16 := by omega
    have htop : c.toNat / 64 < 4 := by omega
    simp only [octets, firstByte_cut a hhigh, secondByte_cut b (a.toNat % 4) htop, thirdByte_cut,
      ih]

/-! ## Reading symbols -/

theorem symbol_ne_padding {value : Nat} (h : value < 64) : symbol value ≠ padding := by
  intro eq
  have := isSymbol_symbol h
  rw [eq, isSymbol_padding] at this
  exact absurd this (by decide)

theorem sextetAt_symbol {value : Nat} (h : value < 64) (offset : Nat) :
    sextetAt offset (symbol value) = .ok value := by
  simp only [sextetAt, sextet_symbol h]

/-- A group of four symbols gives three bytes, also as the last group of a text. -/
theorem decodeFrom_group {s t u v : Nat} (hs : s < 64) (ht : t < 64) (hu : u < 64) (hv : v < 64)
    (offset : Nat) {rest : List UInt8} {bytes : List UInt8}
    (h : decodeFrom (offset + 4) rest = .ok bytes) :
    decodeFrom offset (symbol s :: symbol t :: symbol u :: symbol v :: rest)
      = .ok (firstByte s t :: secondByte t u :: thirdByte u v :: bytes) := by
  cases rest with
  | nil =>
    obtain rfl : [] = bytes := by simpa [decodeFrom, decodeLast] using h
    simp [decodeFrom, decodeLast, decodeEnd, sextetAt_symbol, symbol_ne_padding, hs, ht, hu, hv,
      bind, Except.bind, pure, Except.pure]
  | cons e rest =>
    simp [decodeFrom, decodeGroup, sextetAt_symbol, hs, ht, hu, hv, h, bind, Except.bind, pure,
      Except.pure]

end KeyAgreement.Base64

namespace KeyAgreement.Token

open Base64

theorem fillUp_group (a b c d : UInt8) (rest : List UInt8) :
    fillUp (a :: b :: c :: d :: rest) = a :: b :: c :: d :: fillUp rest := by
  have h : (rest.length + 1 + 1 + 1 + 1) % 4 = rest.length % 4 := by omega
  simp [fillUp, h]

theorem length_fillUp_mod (text : List UInt8) : (fillUp text).length % 4 = 0 := by
  simp only [fillUp, List.length_append, List.length_replicate]
  omega

/-- A text of symbols, filled up to whole groups, stands for the packed values of its symbols. A
single symbol behind whole groups is less than a byte and is left out. -/
theorem decodeFrom_fillUp {values : List Nat} (h : ∀ v ∈ values, v < 64)
    (hl : values.length % 4 ≠ 1) (offset : Nat) :
    decodeFrom offset (fillUp (values.map symbol)) = .ok (octets values) := by
  fun_induction octets values generalizing offset with
  | case1 s t u v rest ih =>
    simp only [List.mem_cons, forall_eq_or_imp] at h
    obtain ⟨hs, ht, hu, hv, hrest⟩ := h
    simp only [List.map_cons, fillUp_group]
    refine decodeFrom_group hs ht hu hv offset (ih hrest ?_ _)
    simp only [List.length_cons] at hl
    omega
  | case2 s t u =>
    simp only [List.mem_cons, forall_eq_or_imp] at h
    simp [fillUp, decodeFrom, decodeLast, decodeEnd, sextetAt_symbol, symbol_ne_padding, h, bind,
      Except.bind, pure, Except.pure]
  | case3 s t =>
    simp only [List.mem_cons, forall_eq_or_imp] at h
    simp [fillUp, decodeFrom, decodeLast, decodeEnd, sextetAt_symbol, h, bind, Except.bind]
  | case4 values hgroup hthree htwo =>
    -- What is left is the empty text; a text of one symbol is excluded by its length.
    match values with
    | [] => rfl
    | [s] => exact absurd rfl hl
    | [s, t] => exact absurd rfl (htwo s t)
    | [s, t, u] => exact absurd rfl (hthree s t u)
    | s :: t :: u :: v :: rest => exact absurd rfl (hgroup s t u v rest)

/-- A text that is filled up has no stray byte behind its whole groups. -/
theorem decodeBytes_fillUp_eq (text : List UInt8) :
    Base64.decodeBytes (fillUp text) = decodeFrom 0 (fillUp text) := by
  have stray : strayByte? (fillUp text) = none := by
    rw [strayByte?, length_fillUp_mod, if_neg (by decide)]
  rw [Base64.decodeBytes, stray]

theorem decodeBytes_fillUp {values : List Nat} (h : ∀ v ∈ values, v < 64)
    (hl : values.length % 4 ≠ 1) :
    Base64.decodeBytes (fillUp (values.map symbol)) = .ok (octets values) := by
  rw [decodeBytes_fillUp_eq]
  exact decodeFrom_fillUp h hl 0

/-! ## Strangers -/

/-- A text with a byte that is no base64 symbol. -/
def HasStranger (text : String) : Prop := ∃ byte ∈ Text.bytes text, byte ∉ Base64.symbols

theorem isSymbolic_iff {text : String} : isSymbolic text = true ↔ ¬ HasStranger text := by
  rw [isSymbolic, List.all_eq_true]
  constructor
  · rintro h ⟨byte, hmem, hnot⟩
    exact hnot (List.isSome_idxOf?.1 (h byte hmem))
  · intro h byte hmem
    by_cases hin : byte ∈ Base64.symbols
    · exact List.isSome_idxOf?.2 hin
    · exact absurd ⟨byte, hmem, hin⟩ h

/-! ## Round trip -/

theorem length_encode (bytes : List UInt8) : (encode bytes).length = length bytes.length := by
  rw [encode, Text.length_ofAscii, length_encodeBytes]

/-- The marker is dropped from a written token, and nothing else ever is. -/
theorem dropMarker_encodeBytes (bytes : List UInt8) :
    dropMarker (encodeBytes bytes) = unpadded bytes := by
  have size := length_unpadded bytes
  by_cases whole : paddingCount bytes.length = 0
  · have hl : (unpadded bytes ++ [marker]).length % 4 = 1 := by
      rw [paddingCount] at whole
      simp only [List.length_append, List.length_cons, List.length_nil, size]
      omega
    rw [encodeBytes, if_pos whole, dropMarker, if_pos ⟨hl, by simp⟩, List.dropLast_concat]
  · have hl : (unpadded bytes).length % 4 ≠ 1 := by
      rw [paddingCount] at whole
      omega
    rw [encodeBytes, if_neg whole, dropMarker, if_neg (fun hm => hl hm.1)]

theorem decodeBytes_encodeBytes (bytes : List UInt8) :
    decodeBytes (encodeBytes bytes) = .ok bytes := by
  have hl : (sextets bytes).length % 4 ≠ 1 := by
    rw [length_sextets]
    omega
  rw [decodeBytes, dropMarker_encodeBytes, unpadded, decodeBytes_fillUp (sextets_lt bytes) hl,
    octets_sextets]

/-- A written token stands for the bytes it was written from. -/
@[simp] theorem decode_encode (bytes : List UInt8) : decode (encode bytes) = .ok bytes := by
  rw [decode, bytes_encode, decodeBytes_encodeBytes]

end KeyAgreement.Token
