import KeyAgreement.Fault
import KeyAgreement.Proofs.HexTexts
import Mathlib.Order.Bounds.Basic

/-!
# Where a text stops being hexadecimal

What is written can be read again, whatever the case of its letters. A text of odd length is refused
before anything of it is looked at, and any other text that is refused is refused at its first pair
of bytes that is no number. `IsInvalidPair` says of a text of characters which pairs these are: the
offsets are offsets of bytes, so a pair may begin or end inside a character.

The main statement is `decode_eq_error_iff_isLeast`.
-/

namespace KeyAgreement.Hex

/-! ## What is written is read -/

theorem pair_digits (b : UInt8) : pair (digit (b.toNat / 16)) (digit (b.toNat % 16)) = some b := by
  have hlt := b.toNat_lt
  have hhigh : nibble (digit (b.toNat / 16)) = some (b.toNat / 16) := nibble_digit (by omega)
  have hlow : nibble (digit (b.toNat % 16)) = some (b.toNat % 16) := nibble_digit (by omega)
  have hplus : digit (b.toNat / 16) ≠ plus := by
    intro h
    rw [h] at hhigh
    cases hhigh
  have hvalue : 16 * (b.toNat / 16) + b.toNat % 16 = b.toNat := Nat.div_add_mod ..
  rw [pair, hlow]
  show (if digit (b.toNat / 16) = plus then _ else _) = _
  rw [if_neg hplus, hhigh]
  show some (UInt8.ofNat (16 * (b.toNat / 16) + b.toNat % 16)) = some b
  rw [hvalue, UInt8.ofNat_toNat]

theorem spells_encodeBytes (bytes : List UInt8) : Spells (encodeBytes bytes) bytes := by
  induction bytes with
  | nil => exact .nil
  | cons b bytes ih => exact .cons (pair_digits b) ih

theorem decode_encode (bytes : List UInt8) : decode (encode bytes) = .ok bytes := by
  rw [decode, bytes_encode]
  exact decodeBytes_eq_ok_iff.2 (spells_encodeBytes bytes)

theorem encode_injective {a b : List UInt8} (h : encode a = encode b) : a = b := by
  have ha := decode_encode a
  rw [h, decode_encode] at ha
  exact (Except.ok.inj ha).symm

/-! ## Letters of either case -/

theorem isDigit_toLower_iff {c : Char} : IsDigit c.toLower ↔ IsDigit c := by
  by_cases hc : 65 ≤ c.val.toNat ∧ c.val.toNat ≤ 90
  · have capital : ∀ n : Fin 26, IsDigit (Char.ofUInt8 (UInt8.ofNat (65 + n))).toLower ↔
        IsDigit (Char.ofUInt8 (UInt8.ofNat (65 + n))) := by
      decide
    have hn := capital ⟨c.val.toNat - 65, by omega⟩
    rwa [show 65 + (c.val.toNat - 65) = c.val.toNat by omega, Text.ofUInt8_ofNat (by omega)] at hn
  · have hsame : c.toLower = c := by
      refine dif_neg ?_
      rintro ⟨hge, hle⟩
      exact hc ⟨UInt32.le_iff_toNat_le.1 hge, UInt32.le_iff_toNat_le.1 hle⟩
    rw [hsame]

theorem isPairs_of_isDigit : ∀ {cs : List Char}, cs.length % 2 = 0 → (∀ c ∈ cs, IsDigit c) →
    IsPairs cs
  | [], _, _ => .nil
  | [_], heven, _ => absurd heven Nat.one_ne_zero
  | high :: low :: rest, heven, h => by
    have hrest : rest.length % 2 = 0 := by
      rw [List.length_cons, List.length_cons] at heven
      omega
    simp only [List.forall_mem_cons] at h
    obtain ⟨hhigh, hlow, htail⟩ := h
    exact .cons (.inl hhigh) hlow (isPairs_of_isDigit hrest htail)

theorem isDigit_of_mem_encode {bytes : List UInt8} {c : Char} (h : c ∈ (encode bytes).toList) :
    IsDigit c := by
  rw [encode, Text.toList_ofAscii] at h
  obtain ⟨d, hd, rfl⟩ := List.mem_map.1 h
  obtain ⟨b, -, hb⟩ := List.mem_flatMap.1 hd
  have hlt := b.toNat_lt
  simp only [List.mem_cons, List.not_mem_nil, or_false] at hb
  rcases hb with rfl | rfl
  · exact (digit_of_nibble (nibble_digit (by omega))).2.2.1
  · exact (digit_of_nibble (nibble_digit (by omega))).2.2.1

theorem length_toList_encode (bytes : List UInt8) :
    (encode bytes).toList.length = 2 * bytes.length := by
  rw [encode, Text.toList_ofAscii, List.length_map, (spells_encodeBytes bytes).length_eq]

/-- The writing of a byte string is read whatever the case of its letters. -/
theorem decode_of_toLower_eq {s : String} {bytes : List UInt8}
    (h : s.toLower = (encode bytes).toLower) : decode s = .ok bytes := by
  have hchars : s.toList.map Char.toLower = (encode bytes).toList.map Char.toLower := by
    rw [← Text.toList_toLower, h, Text.toList_toLower]
  have hdigits : ∀ c ∈ s.toList, IsDigit c := by
    intro c hc
    have hmem := List.mem_map_of_mem (f := Char.toLower) hc
    rw [hchars] at hmem
    obtain ⟨d, hd, hdc⟩ := List.mem_map.1 hmem
    rw [← isDigit_toLower_iff, ← hdc, isDigit_toLower_iff]
    exact isDigit_of_mem_encode hd
  have heven : s.toList.length % 2 = 0 := by
    have hlength := congrArg List.length hchars
    rw [List.length_map, List.length_map, length_toList_encode] at hlength
    omega
  obtain ⟨bytes', hdecode⟩ := exists_decode_of_isPairs (isPairs_of_isDigit heven hdigits)
  have hwritten : encode bytes' = encode bytes := by
    rw [encode_of_decode_of_isDigit hdecode hdigits, h,
      ← encode_of_decode_of_isDigit (decode_encode bytes) fun c hc => isDigit_of_mem_encode hc]
  rw [hdecode, encode_injective hwritten]

/-! ## Invalid pairs -/

/-- A number as it is written in base sixteen: digits, at least one, and before them a plus sign or
nothing. One of two characters is never too large for a byte. -/
inductive IsNumeral : List Char → Prop where
  | unsigned {ds : List Char} (hne : ds ≠ []) (hds : ∀ c ∈ ds, IsDigit c) : IsNumeral ds
  | signed {ds : List Char} (hne : ds ≠ []) (hds : ∀ c ∈ ds, IsDigit c) : IsNumeral ('+' :: ds)

/-- The pair of bytes at an offset of a text is no number: it begins or ends inside a character, or
it is a text that is no numeral. -/
structure IsInvalidPair (s : String) (i : ℕ) : Prop where
  even : i % 2 = 0
  inside : i < (Text.bytes s).length
  invalid : ¬ (Text.IsCut s i ∧ Text.IsCut s (i + 2)) ∨
    ∃ part, Text.StandsAt part s i ∧ (Text.bytes part).length = 2 ∧ ¬ IsNumeral part.toList

theorem length_flatMap_of_isDigit {ds : List Char} (h : ∀ c ∈ ds, IsDigit c) :
    (ds.flatMap String.utf8EncodeChar).length = ds.length := by
  induction ds with
  | nil => rfl
  | cons c ds ih =>
    rw [List.forall_mem_cons] at h
    obtain ⟨b, -, hb, -⟩ := nibble_of_isDigit h.1
    rw [List.flatMap_cons, hb, List.length_append, ih h.2, List.length_singleton, List.length_cons,
      Nat.add_comm]

theorem IsNumeral.isPairs {cs : List Char} (h : IsNumeral cs)
    (hlength : (cs.flatMap String.utf8EncodeChar).length = 2) : IsPairs cs := by
  cases h with
  | unsigned hne hds =>
    rw [length_flatMap_of_isDigit hds] at hlength
    exact isPairs_of_isDigit (by omega) hds
  | @signed ds hne hds =>
    have hplus : String.utf8EncodeChar '+' = [plus] := by decide
    rw [List.flatMap_cons, hplus, List.length_append, length_flatMap_of_isDigit hds,
      List.length_singleton] at hlength
    obtain ⟨c, rfl⟩ := List.length_eq_one_iff.1 (show ds.length = 1 by omega)
    exact .cons (.inr rfl) (hds c (List.mem_singleton_self c)) .nil

theorem isNumeral_of_pair {high low byte : UInt8} (h : pair high low = some byte) :
    IsNumeral [Char.ofUInt8 high, Char.ofUInt8 low] := by
  obtain ⟨-, hhigh, hlow, -⟩ := chars_of_pair h
  rcases hhigh with hdigit | hplus
  · exact .unsigned nofun (by simpa using ⟨hdigit, hlow⟩)
  · rw [hplus]
    exact .signed nofun (by simpa using hlow)

/-- A pair that is read is valid: its bytes are ASCII, so they are two characters of the text. -/
theorem not_isInvalidPair_of_pair {s : String} {front back : List UInt8} {high low byte : UInt8}
    (hs : Text.bytes s = front ++ high :: low :: back) (h : pair high low = some byte) :
    ¬ IsInvalidPair s front.length := by
  obtain ⟨⟨hhigh, hlow⟩, -⟩ := chars_of_pair h
  have hstands := Text.standsAt_of_bytes hhigh hlow hs
  have hbytes : Text.bytes (Text.ofAscii [high, low]) = [high, low] :=
    Text.bytes_ofAscii (by simpa using ⟨hhigh, hlow⟩)
  rintro ⟨-, -, hcut | ⟨part, hpart, hlength, hnumeral⟩⟩
  · have hcuts := hstands.isCut
    rw [hbytes] at hcuts
    exact hcut hcuts
  · have hsame : Text.bytes part = [high, low] := hpart.bytes_eq hs hlength
    rw [← hbytes] at hsame
    rw [Text.bytes_injective hsame, Text.toList_ofAscii] at hnumeral
    exact hnumeral (isNumeral_of_pair h)

/-- A pair that is not read is invalid: between two cuts it is a text, and a numeral would have been
read. -/
theorem isInvalidPair_of_pair {s : String} {front back : List UInt8} {high low : UInt8}
    (hs : Text.bytes s = front ++ high :: low :: back) (heven : front.length % 2 = 0)
    (h : pair high low = none) : IsInvalidPair s front.length := by
  refine ⟨heven, ?_, ?_⟩
  · rw [hs, List.length_append, List.length_cons]
    omega
  · by_cases hcut : Text.IsCut s front.length ∧ Text.IsCut s (front.length + 2)
    · obtain ⟨part, hpart, hlength⟩ := Text.exists_standsAt hcut.1 hcut.2
      refine .inr ⟨part, hpart, hlength, ?_⟩
      intro hnumeral
      have hsame : Text.bytes part = [high, low] := hpart.bytes_eq hs hlength
      rw [Text.bytes_eq_flatMap] at hlength hsame
      obtain ⟨bytes, hspells⟩ := (hnumeral.isPairs hlength).exists_spells
      rw [hsame] at hspells
      cases hspells with
      | cons head tail => cases h.symm.trans head
    · exact .inl hcut

/-! ## The first of them -/

theorem exists_of_decodePairs_error {offset : ℕ} {text : List UInt8} {fault : Fault}
    (h : decodePairs offset text = .error fault) :
    ∃ front high low back bytes, text = front ++ high :: low :: back ∧ Spells front bytes ∧
      pair high low = none ∧ fault = .invalidPair (offset + front.length) := by
  induction offset, text using decodePairs.induct with
  | case1 offset high low rest hpair =>
    rw [decodePairs, hpair] at h
    exact ⟨[], high, low, rest, [], rfl, .nil, hpair, (Except.error.inj h).symm⟩
  | case2 offset high low rest byte hpair ih =>
    rw [decodePairs, hpair] at h
    cases hrest : decodePairs (offset + 2) rest with
    | ok others =>
      simp only [hrest] at h
      cases h
    | error cause =>
      simp only [hrest] at h
      obtain rfl : cause = fault := Except.error.inj h
      obtain ⟨front, high', low', back, bytes, rfl, hspells, hnone, rfl⟩ := ih hrest
      refine ⟨high :: low :: front, high', low', back, byte :: bytes, rfl, .cons hpair hspells,
        hnone, ?_⟩
      rw [List.length_cons, List.length_cons, Nat.add_assoc, Nat.add_comm 2, Nat.add_assoc]
  | case3 offset text hshort =>
    rw [decodePairs] at h
    · cases h
    · exact hshort

theorem Spells.exists_pair {text bytes front back : List UInt8} {high low : UInt8}
    (h : Spells text bytes) (htext : text = front ++ high :: low :: back)
    (heven : front.length % 2 = 0) : ∃ byte, pair high low = some byte := by
  induction h generalizing front with
  | nil => cases front <;> cases htext
  | @cons high' low' byte text bytes head tail ih =>
    -- nothing, one byte or a whole pair comes before the pair in question
    rcases front with _ | ⟨a, _ | ⟨b, front⟩⟩
    · cases htext
      exact ⟨byte, head⟩
    · cases heven
    · obtain ⟨-, htext⟩ := List.cons.inj htext
      obtain ⟨-, htext⟩ := List.cons.inj htext
      rw [List.length_cons, List.length_cons] at heven
      exact ih htext (by omega)

/-- As far as a text can be read, none of its pairs is invalid. -/
theorem Spells.not_isInvalidPair {s : String} {front back bytes : List UInt8} {i : ℕ}
    (h : Spells front bytes) (hs : Text.bytes s = front ++ back) (hi : i < front.length) :
    ¬ IsInvalidPair s i := by
  intro hinvalid
  have hi' : i + 1 < front.length := by
    have heven := hinvalid.even
    have hlength := h.length_eq
    omega
  have hfront : front = front.take i ++ front[i] :: front[i + 1] :: front.drop (i + 2) := by
    rw [← List.drop_eq_getElem_cons hi', ← List.drop_eq_getElem_cons hi, List.take_append_drop]
  have hlength : (front.take i).length = i := List.length_take_of_le (Nat.le_of_lt hi)
  have heven : (front.take i).length % 2 = 0 := by
    rw [hlength]
    exact hinvalid.even
  obtain ⟨byte, hbyte⟩ := h.exists_pair hfront heven
  rw [hfront, List.append_assoc] at hs
  rw [← hlength] at hinvalid
  exact not_isInvalidPair_of_pair hs hbyte hinvalid

theorem not_isInvalidPair_of_decode {s : String} {bytes : List UInt8} (h : decode s = .ok bytes)
    (i : ℕ) : ¬ IsInvalidPair s i := by
  intro hinvalid
  exact (decodeBytes_eq_ok_iff.1 h).not_isInvalidPair (List.append_nil _).symm hinvalid.inside
    hinvalid

theorem exists_isLeast_of_decode_error {s : String} {fault : Fault}
    (heven : (Text.bytes s).length % 2 = 0) (h : decode s = .error fault) :
    ∃ i, IsLeast {i | IsInvalidPair s i} i ∧ fault = .invalidPair i := by
  rw [decode, decodeBytes, if_neg (by omega)] at h
  obtain ⟨front, high, low, back, bytes, hs, hspells, hnone, rfl⟩ := exists_of_decodePairs_error h
  have hfront := hspells.length_eq
  refine ⟨front.length, ⟨isInvalidPair_of_pair hs (by omega) hnone, ?_⟩, by rw [Nat.zero_add]⟩
  intro i hi
  by_contra hlt
  exact hspells.not_isInvalidPair hs (Nat.lt_of_not_le hlt) hi

/-- The writing of a byte string is read as that byte string, whatever the case of its letters. A
text that takes an odd number of bytes is refused for that, whatever else is wrong with it; any
other is refused exactly when a pair is invalid, and for its first invalid pair. -/
theorem decode_eq_error_iff_isLeast :
    (∀ bytes s, s.toLower = (encode bytes).toLower → decode s = .ok bytes) ∧
    (∀ s, (Text.bytes s).length % 2 = 1 → decode s = .error .oddLength) ∧
    (∀ s, (Text.bytes s).length % 2 = 0 → ∀ fault, decode s = .error fault ↔
      ∃ i, IsLeast {i | IsInvalidPair s i} i ∧ fault = .invalidPair i) ∧
    (KeyAgreement.Fault.encoding (.hex .oddLength)).detail = "odd-length hex string" ∧
    ∀ i, (KeyAgreement.Fault.encoding (.hex (.invalidPair i))).detail
      = s!"invalid hex at offset {i}" := by
  refine ⟨fun bytes s h => decode_of_toLower_eq h, ?_, ?_, rfl, fun i => rfl⟩
  · intro s hodd
    rw [decode, decodeBytes, if_pos hodd]
  · intro s heven fault
    constructor
    · exact exists_isLeast_of_decode_error heven
    · rintro ⟨i, hi, rfl⟩
      cases hdecode : decode s with
      | ok bytes => exact absurd hi.1 (not_isInvalidPair_of_decode hdecode i)
      | error fault =>
        obtain ⟨j, hj, rfl⟩ := exists_isLeast_of_decode_error heven hdecode
        rw [hi.unique hj]

/-- Mixed case is read; three bytes are refused for their number, though the last two are one
character; and behind a good pair the first invalid one ends inside a character. -/
theorem decode_eq_error_iff_isLeast_cut :
    "0FaB".toLower = (encode [15, 171]).toLower ∧ decode "0FaB" = .ok [15, 171] ∧
      (Text.bytes "0é").length % 2 = 1 ∧ decode "0é" = .error .oddLength ∧
      (Text.bytes "ab0é0").length % 2 = 0 ∧ decode "ab0é0" = .error (.invalidPair 2) ∧
      IsLeast {i | IsInvalidPair "ab0é0" i} 2 := by
  obtain ⟨hread, hodd, hfirst, -⟩ := decode_eq_error_iff_isLeast
  have hcase : "0FaB".toLower = (encode [15, 171]).toLower := by
    apply String.toList_inj.1
    rw [Text.toList_toLower, Text.toList_toLower]
    decide
  have hthree : (Text.bytes "0é").length % 2 = 1 := rfl
  have hsix : (Text.bytes "ab0é0").length % 2 = 0 := rfl
  have hrefused : decode "ab0é0" = .error (.invalidPair 2) := rfl
  obtain ⟨i, hi, hfault⟩ := (hfirst "ab0é0" hsix _).1 hrefused
  obtain rfl : 2 = i := Fault.invalidPair.inj hfault
  exact ⟨hcase, hread _ _ hcase, hthree, hodd _ hthree, hsix, hrefused, hi⟩

end KeyAgreement.Hex
