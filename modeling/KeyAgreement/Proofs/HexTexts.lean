import KeyAgreement.Hex
import KeyAgreement.Proofs.Texts

/-!
# The texts that are read as hexadecimal

A text is read two characters at a time: a digit behind a digit, or a digit behind a plus sign,
which then counts as a zero. `IsPairs` says which texts these are, as texts of characters, so that
the characters outside ASCII and the bytes they are written with are out of the way.

The main statement is `exists_decode_iff_isPairs`. Without a plus sign a text that is read is the
writing of its bytes up to case; with one it is not even a text of digits, as `decode_plus` shows.
-/

namespace KeyAgreement.Hex

/-! ## Digits -/

/-- A hexadecimal digit of either case. -/
def IsDigit (c : Char) : Prop := c ∈ "0123456789abcdefABCDEF".toList

instance : DecidablePred IsDigit := fun c =>
  inferInstanceAs (Decidable (c ∈ "0123456789abcdefABCDEF".toList))

theorem digits_toList :
    "0123456789abcdefABCDEF".toList = (digits ++ capitals.drop 10).map Char.ofUInt8 := by
  decide

theorem eq_digit_of_nibble {byte : UInt8} {value : Nat} (h : nibble byte = some value) :
    value < 16 ∧ (byte = digit value ∨ byte = capitals.getD value 0) := by
  rcases Option.or_eq_some_iff.1 h with hlower | ⟨-, hupper⟩
  · obtain ⟨hlt, heq, -⟩ := List.idxOf?_eq_some_iff.1 hlower
    exact ⟨hlt, .inl (by simp [digit, hlt, heq])⟩
  · obtain ⟨hlt, heq, -⟩ := List.idxOf?_eq_some_iff.1 hupper
    exact ⟨hlt, .inr (by simp [hlt, heq])⟩

theorem digit_of_nibble {byte : UInt8} {value : Nat} (h : nibble byte = some value) :
    value < 16 ∧ byte < 128 ∧ IsDigit (Char.ofUInt8 byte) ∧
      Char.ofUInt8 (digit value) = (Char.ofUInt8 byte).toLower := by
  have lower : ∀ v : Fin 16, IsDigit (Char.ofUInt8 (digit v)) ∧
      Char.ofUInt8 (digit v) = (Char.ofUInt8 (digit v)).toLower := by
    decide
  have upper : ∀ v : Fin 16, capitals.getD v 0 < 128 ∧ IsDigit (Char.ofUInt8 (capitals.getD v 0)) ∧
      Char.ofUInt8 (digit v) = (Char.ofUInt8 (capitals.getD v 0)).toLower := by
    decide
  obtain ⟨hlt, rfl | rfl⟩ := eq_digit_of_nibble h
  · exact ⟨hlt, digit_lt value, lower ⟨value, hlt⟩⟩
  · exact ⟨hlt, upper ⟨value, hlt⟩⟩

theorem nibble_of_isDigit {c : Char} (h : IsDigit c) :
    ∃ byte value, String.utf8EncodeChar c = [byte] ∧ nibble byte = some value := by
  rw [IsDigit, digits_toList] at h
  obtain ⟨byte, hmem, rfl⟩ := List.mem_map.1 h
  have hsome : (nibble byte).isSome = true := by
    rw [nibble, Option.isSome_or, Bool.or_eq_true, List.isSome_idxOf?, List.isSome_idxOf?]
    exact (List.mem_append.1 hmem).imp_right List.mem_of_mem_drop
  obtain ⟨value, hvalue⟩ := Option.isSome_iff_exists.1 hsome
  exact ⟨byte, value, Text.utf8EncodeChar_ofUInt8 (digit_of_nibble hvalue).2.1, hvalue⟩

/-! ## Pairs -/

/-- A pair that is read stands for the value of its digits, and a plus sign for the digit zero. -/
theorem digits_of_pair {high low byte : UInt8} (h : pair high low = some byte) :
    ∃ sixteens units, nibble low = some units ∧ byte.toNat = 16 * sixteens + units ∧
      (high = plus ∧ sixteens = 0 ∨ nibble high = some sixteens) := by
  obtain ⟨units, hlow, hrest⟩ := Option.bind_eq_some_iff.1 h
  have hunits := (digit_of_nibble hlow).1
  by_cases hplus : high = plus
  · rw [if_pos hplus] at hrest
    obtain rfl := Option.some.inj hrest
    refine ⟨0, units, hlow, ?_, .inl ⟨hplus, rfl⟩⟩
    rw [UInt8.toNat_ofNat']
    omega
  · rw [if_neg hplus] at hrest
    obtain ⟨sixteens, hhigh, hbyte⟩ := Option.bind_eq_some_iff.1 hrest
    obtain rfl := Option.some.inj hbyte
    have hsixteens := (digit_of_nibble hhigh).1
    refine ⟨sixteens, units, hlow, ?_, .inr hhigh⟩
    rw [UInt8.toNat_ofNat']
    omega

theorem exists_pair_eq_some {high low : UInt8} (hhigh : high = plus ∨ (nibble high).isSome)
    (hlow : (nibble low).isSome) : ∃ byte, pair high low = some byte := by
  obtain ⟨units, hunits⟩ := Option.isSome_iff_exists.1 hlow
  by_cases hplus : high = plus
  · exact ⟨UInt8.ofNat units, by simp [pair, hunits, hplus]⟩
  · obtain ⟨sixteens, hsixteens⟩ := Option.isSome_iff_exists.1 (hhigh.resolve_left hplus)
    exact ⟨UInt8.ofNat (16 * sixteens + units), by simp [pair, hunits, hplus, hsixteens]⟩

/-- A text, as its bytes, that stands pair by pair for a byte string. -/
inductive Spells : List UInt8 → List UInt8 → Prop
  | nil : Spells [] []
  | cons {high low byte : UInt8} {text bytes : List UInt8} (head : pair high low = some byte)
      (tail : Spells text bytes) : Spells (high :: low :: text) (byte :: bytes)

theorem Spells.decodePairs_eq {text bytes : List UInt8} (h : Spells text bytes) (offset : Nat) :
    decodePairs offset text = .ok bytes := by
  induction h generalizing offset with
  | nil => rfl
  | cons head tail ih =>
    rw [decodePairs, head]
    simp only [ih]
    rfl

theorem Spells.length_eq {text bytes : List UInt8} (h : Spells text bytes) :
    text.length = 2 * bytes.length := by
  induction h with
  | nil => rfl
  | cons head tail ih =>
    simp only [List.length_cons, ih]
    omega

theorem spells_of_decodePairs {offset : Nat} {text bytes : List UInt8}
    (heven : text.length % 2 = 0) (h : decodePairs offset text = .ok bytes) :
    Spells text bytes := by
  induction offset, text using decodePairs.induct generalizing bytes with
  | case1 offset high low rest hpair =>
    rw [decodePairs, hpair] at h
    cases h
  | case2 offset high low rest byte hpair ih =>
    simp only [decodePairs, hpair] at h
    obtain ⟨others, hothers, hbytes⟩ := Text.bind_eq_ok h
    obtain rfl := Except.ok.inj hbytes
    simp only [List.length_cons] at heven
    exact .cons hpair (ih (by omega) hothers)
  | case3 text offset hshort =>
    -- no pair is left, and an even length rules out a single byte
    match text with
    | [] =>
      obtain rfl := Except.ok.inj h
      exact .nil
    | [byte] => simp at heven
    | high :: low :: rest => exact absurd rfl (hshort high low rest)

theorem decodeBytes_eq_ok_iff {text bytes : List UInt8} :
    decodeBytes text = .ok bytes ↔ Spells text bytes := by
  unfold decodeBytes
  constructor
  · intro h
    by_cases hodd : text.length % 2 = 1
    · rw [if_pos hodd] at h
      cases h
    · rw [if_neg hodd] at h
      exact spells_of_decodePairs (by omega) h
  · intro h
    have hlength := h.length_eq
    rw [if_neg (by omega), h.decodePairs_eq]

/-! ## Texts of characters -/

/-- The character, with a plus sign taken for the zero it stands for. -/
def unsigned (c : Char) : Char := if c = '+' then '0' else c

/-- Pairs of digits, where a plus sign may stand for the first digit of a pair. -/
inductive IsPairs : List Char → Prop
  | nil : IsPairs []
  | cons {high low : Char} {rest : List Char} (first : IsDigit high ∨ high = '+')
      (second : IsDigit low) (tail : IsPairs rest) : IsPairs (high :: low :: rest)

theorem unsigned_of_isDigit {c : Char} (h : IsDigit c) : unsigned c = c := by
  have hplus : c ≠ '+' := by
    rintro rfl
    exact absurd h (by decide)
  rw [unsigned, if_neg hplus]

/-- What a pair that is read looks like, and how the byte it stands for is written. -/
theorem chars_of_pair {high low byte : UInt8} (h : pair high low = some byte) :
    (high < 128 ∧ low < 128) ∧
    (IsDigit (Char.ofUInt8 high) ∨ Char.ofUInt8 high = '+') ∧ IsDigit (Char.ofUInt8 low) ∧
    Char.ofUInt8 (digit (byte.toNat / 16)) = (unsigned (Char.ofUInt8 high)).toLower ∧
    Char.ofUInt8 (digit (byte.toNat % 16)) = (unsigned (Char.ofUInt8 low)).toLower := by
  obtain ⟨sixteens, units, hlow, hbyte, hhigh⟩ := digits_of_pair h
  obtain ⟨hunits, hlt, hdigit, hlower⟩ := digit_of_nibble hlow
  rw [show byte.toNat / 16 = sixteens by omega, show byte.toNat % 16 = units by omega,
    unsigned_of_isDigit hdigit]
  -- a sign is written back as the zero it was read as, a digit as itself
  rcases hhigh with ⟨rfl, rfl⟩ | hhigh
  · exact ⟨⟨by decide, hlt⟩, .inr rfl, hdigit, by decide, hlower⟩
  · obtain ⟨-, hlt', hdigit', hlower'⟩ := digit_of_nibble hhigh
    rw [unsigned_of_isDigit hdigit']
    exact ⟨⟨hlt', hlt⟩, .inl hdigit', hdigit, hlower', hlower⟩

theorem Spells.lt {text bytes : List UInt8} (h : Spells text bytes) : ∀ b ∈ text, b < 128 := by
  induction h with
  | nil => simp
  | cons head tail ih =>
    obtain ⟨⟨hhigh, hlow⟩, -⟩ := chars_of_pair head
    simpa using ⟨hhigh, hlow, ih⟩

theorem Spells.isPairs {text bytes : List UInt8} (h : Spells text bytes) :
    IsPairs (text.map Char.ofUInt8) := by
  induction h with
  | nil => exact .nil
  | cons head tail ih =>
    obtain ⟨-, hhigh, hlow, -⟩ := chars_of_pair head
    exact .cons hhigh hlow ih

/-- A text and the writing of the bytes it spells differ in case and in plus signs only. -/
theorem Spells.map_encodeBytes {text bytes : List UInt8} (h : Spells text bytes) :
    (encodeBytes bytes).map Char.ofUInt8
      = (text.map Char.ofUInt8).map fun c => (unsigned c).toLower := by
  induction h with
  | nil => rfl
  | cons head tail ih =>
    obtain ⟨-, -, -, hhigh, hlow⟩ := chars_of_pair head
    rw [encodeBytes] at ih
    simp only [encodeBytes, List.flatMap_cons, List.map_cons, ih, hhigh, hlow, List.cons_append,
      List.nil_append]

theorem IsPairs.exists_spells {cs : List Char} (h : IsPairs cs) :
    ∃ bytes, Spells (cs.flatMap String.utf8EncodeChar) bytes := by
  induction h with
  | nil => exact ⟨[], .nil⟩
  | @cons high low rest first second tail ih =>
    obtain ⟨bytes, hrest⟩ := ih
    obtain ⟨l, units, hl, hunits⟩ := nibble_of_isDigit second
    obtain ⟨k, hk, hsign⟩ : ∃ k, String.utf8EncodeChar high = [k] ∧
        (k = plus ∨ (nibble k).isSome) := by
      rcases first with hdigit | rfl
      · obtain ⟨k, sixteens, hk, hsixteens⟩ := nibble_of_isDigit hdigit
        exact ⟨k, hk, .inr (Option.isSome_of_eq_some hsixteens)⟩
      · exact ⟨plus, by decide, .inl rfl⟩
    obtain ⟨byte, hbyte⟩ := exists_pair_eq_some hsign (Option.isSome_of_eq_some hunits)
    refine ⟨byte :: bytes, ?_⟩
    rw [List.flatMap_cons, List.flatMap_cons, hk, hl]
    exact .cons hbyte hrest

theorem IsPairs.isDigit_of_notMem {cs : List Char} (h : IsPairs cs) (hplus : '+' ∉ cs) :
    ∀ c ∈ cs, IsDigit c := by
  induction h with
  | nil => simp
  | cons first second tail ih =>
    simp only [List.mem_cons, not_or] at hplus
    obtain ⟨hhigh, -, hrest⟩ := hplus
    have hdigit := first.resolve_right fun h => hhigh h.symm
    simpa using ⟨hdigit, second, ih hrest⟩

theorem isPairs_of_decode {s : String} {bytes : List UInt8} (h : decode s = .ok bytes) :
    IsPairs s.toList := by
  have hspells := decodeBytes_eq_ok_iff.1 h
  rw [← Text.ofAscii_bytes hspells.lt, Text.toList_ofAscii]
  exact hspells.isPairs

theorem encode_of_decode {s : String} {bytes : List UInt8} (h : decode s = .ok bytes) :
    encode bytes = (s.map unsigned).toLower := by
  have hspells := decodeBytes_eq_ok_iff.1 h
  apply String.toList_inj.1
  rw [encode, Text.toList_ofAscii, hspells.map_encodeBytes, ← Text.toList_ofAscii,
    Text.ofAscii_bytes hspells.lt, Text.toList_toLower, String.toList_map, List.map_map]
  rfl

/-- A text of digits is the writing of its bytes up to case. -/
theorem encode_of_decode_of_isDigit {s : String} {bytes : List UInt8} (h : decode s = .ok bytes)
    (hdigits : ∀ c ∈ s.toList, IsDigit c) : encode bytes = s.toLower := by
  have hsame : s.map unsigned = s := by
    apply String.toList_inj.1
    rw [String.toList_map]
    exact (List.map_congr_left fun c hc => unsigned_of_isDigit (hdigits c hc)).trans
      (List.map_id s.toList)
  rw [encode_of_decode h, hsame]

theorem exists_decode_of_isPairs {s : String} (h : IsPairs s.toList) :
    ∃ bytes, decode s = .ok bytes := by
  obtain ⟨bytes, hspells⟩ := h.exists_spells
  rw [← Text.bytes_eq_flatMap] at hspells
  exact ⟨bytes, decodeBytes_eq_ok_iff.2 hspells⟩

/-- The texts that are read are the pairs of digits, a plus sign counting as a first digit. The
bytes of such a text are written as the text is, in lower case and with a zero for every plus sign;
so a text without a plus sign consists of digits only and is their writing up to case. -/
theorem exists_decode_iff_isPairs (s : String) :
    ((∃ bytes, decode s = .ok bytes) ↔ IsPairs s.toList) ∧
    (∀ bytes, decode s = .ok bytes → encode bytes = (s.map unsigned).toLower) ∧
    ∀ bytes, decode s = .ok bytes → '+' ∉ s.toList →
      (∀ c ∈ s.toList, IsDigit c) ∧ encode bytes = s.toLower := by
  refine ⟨⟨?_, exists_decode_of_isPairs⟩, fun bytes h => encode_of_decode h, ?_⟩
  · rintro ⟨bytes, h⟩
    exact isPairs_of_decode h
  · intro bytes h hplus
    have hdigits := (isPairs_of_decode h).isDigit_of_notMem hplus
    exact ⟨hdigits, encode_of_decode_of_isDigit h hdigits⟩

theorem exists_decode_iff_isPairs_mixed :
    decode "0fAb" = .ok [15, 171] ∧ IsPairs "0fAb".toList ∧
      (∀ c ∈ "0fAb".toList, IsDigit c) ∧ encode [15, 171] = "0fAb".toLower := by
  have hread : decode "0fAb" = .ok [15, 171] := rfl
  obtain ⟨hpairs, -, hunsigned⟩ := exists_decode_iff_isPairs "0fAb"
  exact ⟨hread, hpairs.1 ⟨_, hread⟩, hunsigned [15, 171] hread (by decide)⟩

/-- A text that is read although a sign stands in it, and that its bytes are not written as. -/
theorem decode_plus :
    decode "+f" = .ok [15] ∧ (∃ c ∈ "+f".toList, ¬ IsDigit c) ∧ encode [15] ≠ "+f".toLower := by
  refine ⟨rfl, ⟨'+', by decide, by decide⟩, fun h => ?_⟩
  have hsign : '+' ∈ (encode [15]).toList := by
    rw [h, Text.toList_toLower]
    decide
  exact absurd hsign (by decide)

end KeyAgreement.Hex
