import KeyAgreement.Fault
import KeyAgreement.Proofs.Texts
import KeyAgreement.Proofs.TokenRoundTrip
import Mathlib.Algebra.Group.Nat.Defs
import Mathlib.Data.List.ModifyLast

/-!
# The written form of a token

Several tokens stand for the same bytes: the marker may be missing, and the low bits of the last
symbol that no byte takes are ignored. One of them is the token that is written for those bytes, and
it can be told from any of the others by their length and their last symbol: `canonical`.

The main statements are `encode_lossless`, about what is written, and `decode_eq_canonical`, about
what is read.
-/

namespace KeyAgreement

namespace Base64

/-! ## Whole groups -/

theorem length_group_mod {α : Type} {a b c d : α} {rest : List α} :
    (a :: b :: c :: d :: rest).length % 4 = rest.length % 4 := by
  simp only [List.length_cons]
  omega

/-- A text of whole groups is empty, or it is a group before such a text. -/
@[elab_as_elim]
theorem wholeGroups_induction {α : Type} {motive : (text : List α) → text.length % 4 = 0 → Prop}
    (nil : motive [] rfl)
    (group : ∀ a b c d rest (h : rest.length % 4 = 0), motive rest h →
      motive (a :: b :: c :: d :: rest) (length_group_mod.trans h)) :
    ∀ (text : List α) (h : text.length % 4 = 0), motive text h
  | [], _ => nil
  | [_], h => absurd h (by simp)
  | [_, _], h => absurd h (by simp)
  | [_, _, _], h => absurd h (by simp)
  | a :: b :: c :: d :: rest, h =>
    group a b c d rest (length_group_mod.symm.trans h)
      (wholeGroups_induction nil group rest (length_group_mod.symm.trans h))

theorem octets_append {front : List Nat} (back : List Nat) (h : front.length % 4 = 0) :
    octets (front ++ back) = octets front ++ octets back := by
  induction front, h using wholeGroups_induction with
  | nil => rfl
  | group s t u v rest _ ih => simp only [List.cons_append, octets, ih]

theorem length_octets_mod {values : List Nat} (h : values.length % 4 = 0) :
    (octets values).length % 3 = 0 := by
  induction values, h using wholeGroups_induction with
  | nil => rfl
  | group s t u v rest _ ih =>
    simp only [octets, List.length_cons]
    omega

theorem sextets_append {front : List UInt8} (back : List UInt8) (h : front.length % 3 = 0) :
    sextets (front ++ back) = sextets front ++ sextets back := by
  fun_induction sextets front with
  | case1 => rfl
  | case2 => simp at h
  | case3 => simp at h
  | case4 a b c rest ih =>
    have hrest : rest.length % 3 = 0 := by
      simp only [List.length_cons] at h
      omega
    simp only [List.cons_append, sextets, ih hrest]

/-! ## Cutting what was packed -/

theorem toNat_firstByte {s t : Nat} (hs : s < 64) (ht : t < 64) :
    (firstByte s t).toNat = s * 4 + t / 16 := by
  rw [firstByte, UInt8.toNat_ofNat']
  omega

theorem toNat_secondByte (t : Nat) {u : Nat} (hu : u < 64) :
    (secondByte t u).toNat = t % 16 * 16 + u / 4 := by
  rw [secondByte, UInt8.toNat_ofNat']
  omega

theorem toNat_thirdByte (u : Nat) {v : Nat} (hv : v < 64) :
    (thirdByte u v).toNat = u % 4 * 64 + v := by
  rw [thirdByte, UInt8.toNat_ofNat']
  omega

/-- Two values are cut out of one byte again, the second without its low four bits. -/
theorem sextets_pair {s t : Nat} (hs : s < 64) (ht : t < 64) :
    sextets (octets [s, t]) = [s, t / 16 * 16] := by
  simp only [octets, sextets, toNat_firstByte hs ht, List.cons.injEq, and_true]
  omega

/-- Three values are cut out of two bytes again, the third without its low two bits. -/
theorem sextets_triple {s t u : Nat} (hs : s < 64) (ht : t < 64) (hu : u < 64) :
    sextets (octets [s, t, u]) = [s, t, u / 4 * 4] := by
  simp only [octets, sextets, toNat_firstByte hs ht, toNat_secondByte t hu, List.cons.injEq,
    and_true]
  omega

/-- Whole groups of values are cut out of their bytes unchanged. -/
theorem sextets_octets {values : List Nat} (h : values.length % 4 = 0)
    (hlt : ∀ v ∈ values, v < 64) : sextets (octets values) = values := by
  induction values, h using wholeGroups_induction with
  | nil => rfl
  | group s t u v rest _ ih =>
    simp only [List.mem_cons, forall_eq_or_imp] at hlt
    obtain ⟨hs, ht, hu, hv, hrest⟩ := hlt
    simp only [octets, sextets, toNat_firstByte hs ht, toNat_secondByte t hu, toNat_thirdByte u hv,
      ih hrest, List.cons.injEq, and_true]
    omega

theorem sextets_octets_append {front : List Nat} (back : List Nat) (h : front.length % 4 = 0)
    (hlt : ∀ v ∈ front, v < 64) :
    sextets (octets (front ++ back)) = front ++ sextets (octets back) := by
  rw [octets_append back h, sextets_append _ (length_octets_mod h), sextets_octets h hlt]

/-! ## Texts of symbols -/

/-- A text of symbols is written with the values of its symbols. -/
theorem exists_values {text : List UInt8} (h : text.all isSymbol = true) :
    ∃ values : List Nat, (∀ v ∈ values, v < 64) ∧ values.map symbol = text := by
  induction text with
  | nil => exact ⟨[], by simp, rfl⟩
  | cons byte rest ih =>
    simp only [List.all_cons, Bool.and_eq_true] at h
    obtain ⟨hbyte, hrest⟩ := h
    obtain ⟨value, hvalue⟩ := Option.isSome_iff_exists.1 hbyte
    obtain ⟨hsymbol, hlt⟩ := symbol_of_sextet hvalue
    obtain ⟨values, hvalues, rfl⟩ := ih hrest
    refine ⟨value :: values, ?_, ?_⟩
    · simpa using ⟨hlt, hvalues⟩
    · rw [List.map_cons, hsymbol]

/-- A single symbol that is filled up to a group has its fault at the first padding. -/
theorem decodeFrom_dangling {value : Nat} (h : value < 64) (offset : Nat) :
    decodeFrom offset [symbol value, padding, padding, padding]
      = .error (.invalidSymbol padding (offset + 1)) := by
  have hpadding : sextetAt (offset + 1) padding
      = .error (.invalidSymbol padding (offset + 1)) := rfl
  simp only [decodeFrom, decodeLast, sextetAt_symbol h, hpadding, bind, Except.bind]

/-- A fault behind a group is a fault of the text. -/
theorem decodeFrom_group_error {s t u v : Nat} (hs : s < 64) (ht : t < 64) (hu : u < 64)
    (hv : v < 64) (offset : Nat) {rest : List UInt8} {cause : Fault}
    (h : decodeFrom (offset + 4) rest = .error cause) :
    decodeFrom offset (symbol s :: symbol t :: symbol u :: symbol v :: rest) = .error cause := by
  cases rest with
  | nil => cases h
  | cons e rest =>
    simp only [decodeFrom, decodeGroup, sextetAt_symbol, hs, ht, hu, hv, h, bind, Except.bind, pure,
      Except.pure]

end Base64

namespace Token

open Base64

/-! ## What is written -/

theorem toList_encode (bytes : List UInt8) :
    (encode bytes).toList = (encodeBytes bytes).map Char.ofUInt8 :=
  Text.toList_ofAscii _

/-- The character of a symbol is not the padding character. -/
theorem ofUInt8_ne_padding {byte : UInt8} (h : isSymbol byte = true) : Char.ofUInt8 byte ≠ '=' := by
  intro heq
  have hval : byte.toNat = 61 := congrArg (fun c : Char => c.val.toNat) heq
  obtain rfl : byte = padding := UInt8.toNat_inj.1 hval
  rw [isSymbol_padding] at h
  cases h

theorem isSymbol_of_mem_encodeBytes {bytes : List UInt8} {byte : UInt8}
    (h : byte ∈ encodeBytes bytes) : isSymbol byte = true := by
  have hall := isSymbolic_encode bytes
  rw [isSymbolic, bytes_encode] at hall
  exact List.all_eq_true.1 hall byte h

/-- The token is the base64 text cut at its first padding, or, if it has none, with the marker. -/
theorem encodeBytes_eq_cut (bytes : List UInt8) :
    encodeBytes bytes = if padding ∈ Base64.encodeBytes bytes
      then (Base64.encodeBytes bytes).takeWhile (· != padding)
      else Base64.encodeBytes bytes ++ [marker] := by
  have hsymbols : ∀ byte ∈ unpadded bytes, byte != padding := by
    intro byte hbyte
    have hsymbol := isSymbol_of_mem_unpadded hbyte
    rw [bne_iff_ne]
    rintro rfl
    rw [isSymbol_padding] at hsymbol
    cases hsymbol
  unfold encodeBytes Base64.encodeBytes
  cases hcount : paddingCount bytes.length with
  | zero =>
    have hnone : padding ∉ unpadded bytes ++ List.replicate 0 padding := by
      intro hmem
      rw [List.replicate_zero, List.append_nil] at hmem
      exact absurd rfl (bne_iff_ne.1 (hsymbols padding hmem))
    rw [if_pos rfl, if_neg hnone, List.replicate_zero, List.append_nil]
  | succ count =>
    rw [if_neg (Nat.succ_ne_zero count), if_pos (by simp), List.takeWhile_append_of_pos hsymbols,
      List.replicate_succ, List.takeWhile_cons_of_neg (by simp), List.append_nil]

/-- Writing a token loses nothing: the token stands for the bytes it was written from. It is made of
symbols, without padding, and its length tells how the last group ended. -/
theorem encode_lossless (bytes : List UInt8) :
    decode (encode bytes) = .ok bytes ∧ isSymbolic (encode bytes) = true ∧
      '=' ∉ (encode bytes).toList ∧
      ∀ n, (bytes.length = 3 * n →
          (encode bytes).length = 4 * n + 1 ∧ (encode bytes).toList.getLast? = some 'A') ∧
        (bytes.length = 3 * n + 1 → (encode bytes).length = 4 * n + 2) ∧
        (bytes.length = 3 * n + 2 → (encode bytes).length = 4 * n + 3) := by
  refine ⟨decode_encode bytes, isSymbolic_encode bytes, ?_, fun n => ⟨?_, ?_, ?_⟩⟩
  · rw [toList_encode]
    intro hmem
    obtain ⟨byte, hbyte, heq⟩ := List.mem_map.1 hmem
    exact ofUInt8_ne_padding (isSymbol_of_mem_encodeBytes hbyte) heq
  · intro h
    have hwhole : paddingCount bytes.length = 0 := by
      rw [h, paddingCount]
      omega
    refine ⟨?_, ?_⟩
    · rw [length_encode, h, length, if_pos (by omega)]
      omega
    · rw [toList_encode, encodeBytes, if_pos hwhole, List.map_append]
      exact List.getLast?_concat
  · intro h
    rw [length_encode, h, length, if_neg (by omega)]
    omega
  · intro h
    rw [length_encode, h, length, if_neg (by omega)]
    omega

/-- Three zero bytes are written with symbols `A` only, and the marker behind them is one more. -/
theorem encode_lossless_zeros : encode [0, 0, 0] = "AAAAA" ∧ decode "AAAAA" = .ok [0, 0, 0] ∧
    (encode [0, 0, 0]).length = 5 ∧ (encode [0, 0, 0]).toList.getLast? = some 'A' := by
  have henc : encode [0, 0, 0] = "AAAAA" := by decide
  obtain ⟨hdec, -, -, hshape⟩ := encode_lossless [0, 0, 0]
  obtain ⟨hlen, hlast⟩ := (hshape 1).1 rfl
  exact ⟨henc, henc ▸ hdec, hlen, hlast⟩

/-! ## What is read -/

/-- A symbol with the `count` low bits of its value cleared. -/
def clearLow (count : Nat) (byte : UInt8) : UInt8 :=
  match sextet byte with
  | some value => symbol (value / 2 ^ count * 2 ^ count)
  | none => byte

/-- The bytes of a token as they would have been written: a missing marker is put behind, and the
bits of the last symbol that stand for no byte are cleared. -/
def canonicalBytes (token : List UInt8) : List UInt8 :=
  match token.length % 4 with
  | 0 => token ++ [marker]
  | 1 => token
  | 2 => token.modifyLast (clearLow 4)
  | _ => token.modifyLast (clearLow 2)

/-- The form in which a token of symbols would have been written. -/
def canonical (token : String) : String := Text.ofAscii (canonicalBytes (Text.bytes token))

/-- A token that ends in the marker. -/
def IsMarked (token : String) : Prop :=
  (Text.bytes token).length % 4 = 1 ∧ (Text.bytes token).getLast? = some marker

/-- A token that ends in a single symbol, which is no marker. -/
def IsDangling (token : String) : Prop :=
  (Text.bytes token).length % 4 = 1 ∧ (Text.bytes token).getLast? ≠ some marker

instance (token : String) : Decidable (IsMarked token) := inferInstanceAs (Decidable (_ ∧ _))

instance (token : String) : Decidable (IsDangling token) := inferInstanceAs (Decidable (_ ∧ _))

theorem clearLow_symbol {value : Nat} (h : value < 64) (count : Nat) :
    clearLow count (symbol value) = symbol (value / 2 ^ count * 2 ^ count) := by
  simp only [clearLow, sextet_symbol h]

theorem modifyLast_clearLow {value : Nat} (front : List Nat) (h : value < 64) (count : Nat) :
    ((front ++ [value]).map symbol).modifyLast (clearLow count)
      = (front ++ [value / 2 ^ count * 2 ^ count]).map symbol := by
  rw [List.map_append, List.map_singleton, List.modifyLast_concat, clearLow_symbol h,
    List.map_append, List.map_singleton]

/-! The canonical form by the length of the last group. -/

theorem canonicalBytes_whole {text : List UInt8} (h : text.length % 4 = 0) :
    canonicalBytes text = text ++ [marker] := by
  simp only [canonicalBytes, h]

theorem canonicalBytes_single {text : List UInt8} (h : text.length % 4 = 1) :
    canonicalBytes text = text := by
  simp only [canonicalBytes, h]

theorem canonicalBytes_pair {text : List UInt8} (h : text.length % 4 = 2) :
    canonicalBytes text = text.modifyLast (clearLow 4) := by
  simp only [canonicalBytes, h]

theorem canonicalBytes_triple {text : List UInt8} (h : text.length % 4 = 3) :
    canonicalBytes text = text.modifyLast (clearLow 2) := by
  simp only [canonicalBytes, h]

/-! Everything in front of the last group comes back unchanged, so the last group decides how the
packed values are written. -/

theorem encodeBytes_octets_whole {values : List Nat} (h : values.length % 4 = 0)
    (hlt : ∀ v ∈ values, v < 64) : encodeBytes (octets values) = values.map symbol ++ [marker] := by
  have hpad : paddingCount (octets values).length = 0 := by
    rw [paddingCount, length_octets_mod h]
  rw [encodeBytes, if_pos hpad, unpadded, sextets_octets h hlt]

theorem encodeBytes_octets_append {front back : List Nat} (h : front.length % 4 = 0)
    (hlt : ∀ v ∈ front, v < 64) (hback : (octets back).length % 3 ≠ 0) :
    encodeBytes (octets (front ++ back)) = (front ++ sextets (octets back)).map symbol := by
  have hfront := length_octets_mod h
  have hpad : paddingCount (octets (front ++ back)).length ≠ 0 := by
    rw [paddingCount, octets_append back h, List.length_append]
    omega
  rw [encodeBytes, if_neg hpad, unpadded, sextets_octets_append back h hlt]

/-- A last group that is not whole comes back with the low bits of its last value cleared. -/
theorem encodeBytes_octets_last {front : List Nat} (init : List Nat) (last count : Nat)
    (h : front.length % 4 = 0) (hlt : ∀ v ∈ front, v < 64) (hlast : last < 64)
    (hback : (octets (init ++ [last])).length % 3 ≠ 0)
    (hcut : sextets (octets (init ++ [last])) = init ++ [last / 2 ^ count * 2 ^ count]) :
    encodeBytes (octets (front ++ (init ++ [last])))
      = ((front ++ (init ++ [last])).map symbol).modifyLast (clearLow count) := by
  rw [encodeBytes_octets_append h hlt hback, hcut, ← List.append_assoc, ← List.append_assoc,
    modifyLast_clearLow _ hlast]

theorem exists_front_back (values : List Nat) : ∃ front back, values = front ++ back ∧
    front.length % 4 = 0 ∧ back.length = values.length % 4 := by
  refine ⟨values.take (values.length / 4 * 4), values.drop (values.length / 4 * 4),
    (List.take_append_drop ..).symm, ?_, ?_⟩
  · rw [List.length_take]
    omega
  · rw [List.length_drop]
    omega

/-- Writing the bytes of a text of symbols gives its canonical form. -/
theorem encodeBytes_octets {values : List Nat} (h : ∀ v ∈ values, v < 64)
    (hl : values.length % 4 ≠ 1) :
    encodeBytes (octets values) = canonicalBytes (values.map symbol) := by
  obtain ⟨front, back, rfl, hfront, hback⟩ := exists_front_back values
  have hmod : ((front ++ back).map symbol).length % 4 = back.length := by
    rw [List.length_map, hback]
  have hlf : ∀ v ∈ front, v < 64 := fun v hv => h v (List.mem_append_left _ hv)
  have hlb : ∀ v ∈ back, v < 64 := fun v hv => h v (List.mem_append_right _ hv)
  have hlt : back.length < 4 := hback ▸ Nat.mod_lt _ (by omega)
  match back, hlt with
  | [], _ =>
    rw [canonicalBytes_whole hmod, List.append_nil, encodeBytes_octets_whole hfront hlf]
  | [s], _ => exact absurd hback.symm hl
  | [s, t], _ =>
    have hs : s < 64 := hlb s (by simp)
    have ht : t < 64 := hlb t (by simp)
    rw [canonicalBytes_pair hmod]
    exact encodeBytes_octets_last [s] t 4 hfront hlf ht (by simp [octets]) (sextets_pair hs ht)
  | [s, t, u], _ =>
    have hs : s < 64 := hlb s (by simp)
    have ht : t < 64 := hlb t (by simp)
    have hu : u < 64 := hlb u (by simp)
    rw [canonicalBytes_triple hmod]
    exact encodeBytes_octets_last [s, t] u 2 hfront hlf hu (by simp [octets])
      (sextets_triple hs ht hu)

/-- A token of symbols that does not dangle stands for bytes, and writing them gives its canonical
form. -/
theorem exists_decodeBytes {token : List UInt8} (h : token.all isSymbol = true)
    (hd : ¬ (token.length % 4 = 1 ∧ token.getLast? ≠ some marker)) :
    ∃ bytes, decodeBytes token = .ok bytes ∧ encodeBytes bytes = canonicalBytes token := by
  by_cases hone : token.length % 4 = 1
  · have hmarked : token.getLast? = some marker :=
      Decidable.byContradiction fun hlast => hd ⟨hone, hlast⟩
    obtain ⟨text, rfl⟩ := List.getLast?_eq_some_iff.1 hmarked
    rw [List.all_append, Bool.and_eq_true] at h
    obtain ⟨values, hvalues, rfl⟩ := exists_values h.1
    have hl : values.length % 4 = 0 := by
      rw [List.length_append, List.length_map, List.length_singleton] at hone
      omega
    have hwhole : (values.map symbol).length % 4 = 0 := by rwa [List.length_map]
    refine ⟨octets values, ?_, ?_⟩
    · rw [decodeBytes, dropMarker, if_pos ⟨hone, hmarked⟩, List.dropLast_concat,
        decodeBytes_fillUp hvalues (by omega)]
    · rw [encodeBytes_octets hvalues (by omega), canonicalBytes_whole hwhole,
        canonicalBytes_single hone]
  · obtain ⟨values, hvalues, rfl⟩ := exists_values h
    have hl : values.length % 4 ≠ 1 := by rwa [List.length_map] at hone
    refine ⟨octets values, ?_, encodeBytes_octets hvalues hl⟩
    rw [decodeBytes, dropMarker, if_neg fun hm => hone hm.1, decodeBytes_fillUp hvalues hl]

/-- Filled up to a whole group, a single symbol stands before padding in the second place. -/
theorem decodeFrom_fillUp_dangling {front : List Nat} {value : Nat} (hv : value < 64)
    (h : ∀ v ∈ front, v < 64) (hl : front.length % 4 = 0) (offset : Nat) :
    decodeFrom offset (fillUp ((front ++ [value]).map symbol))
      = .error (.invalidSymbol padding (offset + front.length + 1)) := by
  induction front, hl using wholeGroups_induction generalizing offset with
  | nil => exact decodeFrom_dangling hv offset
  | group s t u v rest _ ih =>
    simp only [List.mem_cons, forall_eq_or_imp] at h
    obtain ⟨hs, ht, hu, hv, hrest⟩ := h
    have hnext := ih hrest (offset + 4)
    simp only [List.cons_append, List.map_cons, fillUp_group]
    rw [decodeFrom_group_error hs ht hu hv offset hnext]
    simp only [List.length_cons]
    congr 2
    omega

theorem decodeBytes_dangling {token : List UInt8} (h : token.all isSymbol = true)
    (hd : token.length % 4 = 1) (hlast : token.getLast? ≠ some marker) :
    decodeBytes token = .error (.invalidSymbol padding token.length) := by
  obtain ⟨values, hvalues, rfl⟩ := exists_values h
  rcases List.eq_nil_or_concat values with rfl | ⟨front, value, rfl⟩
  · simp at hd
  · rw [List.concat_eq_append] at hvalues hlast hd ⊢
    have hl : front.length % 4 = 0 := by
      rw [List.length_map, List.length_append, List.length_singleton] at hd
      omega
    have hfront : ∀ v ∈ front, v < 64 := fun v hv => hvalues v (List.mem_append_left _ hv)
    have hvalue : value < 64 := hvalues value (by simp)
    rw [decodeBytes, dropMarker, if_neg fun hm => hlast hm.2, decodeBytes_fillUp_eq,
      decodeFrom_fillUp_dangling hvalue hfront hl, List.length_map, List.length_append,
      List.length_singleton, Nat.zero_add]

/-! ## Tokens and their canonical forms -/

theorem ofAscii_bytes_of_isSymbolic {token : String} (h : isSymbolic token = true) :
    Text.ofAscii (Text.bytes token) = token := by
  refine Text.ofAscii_bytes fun byte hbyte => ?_
  obtain ⟨value, hvalue⟩ := Option.isSome_iff_exists.1 (List.all_eq_true.1 h byte hbyte)
  rw [← (symbol_of_sextet hvalue).1]
  exact symbol_lt value

theorem decode_of_isDangling {token : String} (h : isSymbolic token = true)
    (hd : IsDangling token) :
    decode token = .error (.invalidSymbol padding (Text.bytes token).length) :=
  decodeBytes_dangling h hd.1 hd.2

theorem exists_decode {token : String} (h : isSymbolic token = true) (hd : ¬ IsDangling token) :
    ∃ bytes, decode token = .ok bytes ∧ encode bytes = canonical token := by
  obtain ⟨bytes, hdec, henc⟩ := exists_decodeBytes h hd
  exact ⟨bytes, hdec, congrArg Text.ofAscii henc⟩

/-- Writing the bytes that a token of symbols stands for gives its canonical form. -/
theorem encode_of_decode {token : String} {bytes : List UInt8} (h : isSymbolic token = true)
    (hdec : decode token = .ok bytes) : encode bytes = canonical token := by
  have hd : ¬ IsDangling token := by
    intro hd
    rw [decode_of_isDangling h hd] at hdec
    cases hdec
  obtain ⟨bytes', hdec', henc⟩ := exists_decode h hd
  rw [Except.ok.inj (hdec.symm.trans hdec')]
  exact henc

theorem canonical_of_length {token : String} (h : isSymbolic token = true)
    (hl : (Text.bytes token).length % 4 = 1) : canonical token = token := by
  rw [canonical, canonicalBytes_single hl, ofAscii_bytes_of_isSymbolic h]

theorem encode_injective {bytes bytes' : List UInt8} (h : encode bytes = encode bytes') :
    bytes = bytes' := by
  have hdec := decode_encode bytes
  rw [h, decode_encode] at hdec
  exact (Except.ok.inj hdec).symm

/-- What a token of symbols stands for: nothing if it dangles, and the padding that is put behind it
is the fault; otherwise bytes, which are written as its canonical form. So two tokens stand for the
same bytes when their canonical forms agree, and a marked token is alone among those of its
length. -/
theorem decode_eq_canonical :
    (∀ token, isSymbolic token = true → IsDangling token →
      ∃ cause, decode token = .error cause ∧ (EncodingFault.base64 cause).message =
        "invalid base64: Invalid symbol 61, offset " ++ toString (Text.bytes token).length ++ ".") ∧
    (∀ token, isSymbolic token = true → ¬ IsDangling token →
      ∃ bytes, decode token = .ok bytes ∧ encode bytes = canonical token) ∧
    (∀ token token' bytes bytes', isSymbolic token = true → isSymbolic token' = true →
      decode token = .ok bytes → decode token' = .ok bytes' →
        (bytes = bytes' ↔ canonical token = canonical token')) ∧
    (∀ token token' bytes, isSymbolic token = true → isSymbolic token' = true → IsMarked token →
      (Text.bytes token').length = (Text.bytes token).length → token' ≠ token →
        decode token = .ok bytes → decode token' ≠ .ok bytes) := by
  refine ⟨?_, ?_, ?_, ?_⟩
  · intro token h hd
    exact ⟨_, decode_of_isDangling h hd, rfl⟩
  · intro token h hd
    exact exists_decode h hd
  · intro token token' bytes bytes' h h' hdec hdec'
    rw [← encode_of_decode h hdec, ← encode_of_decode h' hdec']
    exact ⟨congrArg encode, encode_injective⟩
  · intro token token' bytes h h' hmarked hlen hne hdec hdec'
    have hone : (Text.bytes token').length % 4 = 1 := hlen ▸ hmarked.1
    have hsame := (encode_of_decode h' hdec').symm.trans (encode_of_decode h hdec)
    rw [canonical_of_length h' hone, canonical_of_length h hmarked.1] at hsame
    exact hne hsame

/-- The token `AAECB` dangles, `/x` and `/w` stand for one byte and are written as `/w`, and of the
two marked tokens `AAECA` and `AAEDA` each stands for bytes of its own. -/
theorem decode_eq_canonical_small :
    (isSymbolic "AAECB" = true ∧ IsDangling "AAECB" ∧ ∃ cause, decode "AAECB" = .error cause ∧
      (EncodingFault.base64 cause).message = "invalid base64: Invalid symbol 61, offset 5.") ∧
    (isSymbolic "/x" = true ∧ ¬ IsDangling "/x" ∧
      ∃ bytes, decode "/x" = .ok bytes ∧ encode bytes = "/w") ∧
    (decode "/x" = .ok [255] ∧ decode "/w" = .ok [255] ∧ canonical "/x" = canonical "/w") ∧
    (IsMarked "AAECA" ∧ decode "AAECA" = .ok [0, 1, 2] ∧ isSymbolic "AAEDA" = true ∧
      decode "AAEDA" ≠ .ok [0, 1, 2]) := by
  obtain ⟨hdangling, hbytes, hsame, hmarked⟩ := decode_eq_canonical
  have hx : isSymbolic "/x" = true := by decide
  have hxd : ¬ IsDangling "/x" := by decide
  have hxdec : decode "/x" = .ok [255] := rfl
  have hwdec : decode "/w" = .ok [255] := rfl
  have hform : canonical "/x" = "/w" := by decide
  have hA : decode "AAECA" = .ok [0, 1, 2] := rfl
  refine ⟨⟨by decide, by decide, hdangling "AAECB" (by decide) (by decide)⟩, ⟨hx, hxd, ?_⟩,
    ⟨hxdec, hwdec, ?_⟩, by decide, hA, by decide, ?_⟩
  · exact hform ▸ hbytes "/x" hx hxd
  · exact (hsame "/x" "/w" [255] [255] hx (by decide) hxdec hwdec).1 rfl
  · exact hmarked "AAECA" "AAEDA" [0, 1, 2] (by decide) (by decide) (by decide) (by decide)
      (by decide) hA

end Token

end KeyAgreement
