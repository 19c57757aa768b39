import KeyAgreement.Proofs.TokenForms

/-!
# The texts that are read as tokens

Reading is lenient about the end of a token: the marker may be there or not, and so may any part of
the padding, though a token is written without. Everything in front must be symbols. `IsFilled` says
which texts are read at all, as texts of characters and without a word on how they are read.

The main statement is `exists_decode_iff_isFilled`: the texts that are read are these, each stands
for what its symbols alone stand for, and every other text is refused as base64.
-/

namespace KeyAgreement

namespace Base64

open Token

variable {offset : Nat}

/-! ## Texts that are read -/

theorem symbol_of_sextetAt {byte : UInt8} {value : Nat} (h : sextetAt offset byte = .ok value) :
    symbol value = byte ∧ value < 64 := by
  unfold sextetAt at h
  cases hs : sextet byte with
  | none =>
    rw [hs] at h
    cases h
  | some v =>
    rw [hs] at h
    obtain rfl := Except.ok.inj h
    exact symbol_of_sextet hs

theorem symbols_lt : ∀ byte ∈ symbols, byte < 128 := by
  simp [symbols]

theorem all_isSymbol_map {values : List Nat} (h : ∀ v ∈ values, v < 64) :
    (values.map symbol).all isSymbol = true := by
  rw [List.all_map, List.all_eq_true]
  intro v hv
  exact isSymbol_symbol (h v hv)

theorem symbols_of_decodeGroup {a b c d : UInt8} {bytes : List UInt8}
    (h : decodeGroup offset a b c d = .ok bytes) :
    ∃ s t u v, (s < 64 ∧ t < 64 ∧ u < 64 ∧ v < 64) ∧
      symbol s = a ∧ symbol t = b ∧ symbol u = c ∧ symbol v = d := by
  obtain ⟨s, ha, hrest⟩ := Text.bind_eq_ok h
  obtain ⟨t, hb, hrest⟩ := Text.bind_eq_ok hrest
  obtain ⟨u, hc, hrest⟩ := Text.bind_eq_ok hrest
  obtain ⟨v, hd, -⟩ := Text.bind_eq_ok hrest
  obtain ⟨hsa, hs⟩ := symbol_of_sextetAt ha
  obtain ⟨htb, ht⟩ := symbol_of_sextetAt hb
  obtain ⟨huc, hu⟩ := symbol_of_sextetAt hc
  obtain ⟨hvd, hv⟩ := symbol_of_sextetAt hd
  exact ⟨s, t, u, v, ⟨hs, ht, hu, hv⟩, hsa, htb, huc, hvd⟩

/-- The last two places of a text that is read hold padding, a symbol and padding, or symbols. -/
theorem values_of_decodeEnd {s t : Nat} {c d : UInt8} {bytes : List UInt8}
    (h : decodeEnd offset s t [c, d] = .ok bytes) :
    ∃ values : List Nat, (∀ v ∈ values, v < 64) ∧ values.length ≤ 2 ∧
      [c, d] = values.map symbol ++ List.replicate (2 - values.length) padding := by
  rw [decodeEnd] at h
  by_cases hc : c = padding
  · rw [if_pos hc] at h
    by_cases hd : d = padding
    · exact ⟨[], by simp, by simp, by rw [hc, hd]; rfl⟩
    · rw [if_neg hd] at h
      cases h
  · rw [if_neg hc] at h
    obtain ⟨u, hread, hlast⟩ := Text.bind_eq_ok h
    obtain ⟨huc, hu⟩ := symbol_of_sextetAt hread
    by_cases hd : d = padding
    · exact ⟨[u], by simpa using hu, by simp, by rw [hd, ← huc]; rfl⟩
    · rw [if_neg hd] at hlast
      obtain ⟨v, hread', -⟩ := Text.bind_eq_ok hlast
      obtain ⟨hvd, hv⟩ := symbol_of_sextetAt hread'
      exact ⟨[u, v], by simpa using ⟨hu, hv⟩, by simp, by rw [← huc, ← hvd]; rfl⟩

/-- A last group that is read is filled up from two symbols at least. -/
theorem values_of_decodeLast {a b c d : UInt8} {bytes : List UInt8}
    (h : decodeLast offset [a, b, c, d] = .ok bytes) :
    ∃ values : List Nat, (∀ v ∈ values, v < 64) ∧ values.length % 4 ≠ 1 ∧
      [a, b, c, d] = fillUp (values.map symbol) := by
  obtain ⟨s, ha, hrest⟩ := Text.bind_eq_ok h
  obtain ⟨t, hb, hend⟩ := Text.bind_eq_ok hrest
  obtain ⟨hsa, hs⟩ := symbol_of_sextetAt ha
  obtain ⟨htb, ht⟩ := symbol_of_sextetAt hb
  obtain ⟨values, hvalues, hle, hcd⟩ := values_of_decodeEnd hend
  refine ⟨s :: t :: values, by simpa using ⟨hs, ht, hvalues⟩, ?_, ?_⟩
  · simp only [List.length_cons]
    omega
  · have hcount : (4 - (values.length + 1 + 1) % 4) % 4 = 2 - values.length := by omega
    simp only [fillUp, List.map_cons, List.length_cons, List.length_map, hcount, List.cons_append,
      ← hcd, hsa, htb]

/-- A text of whole groups that is read is a text of symbols, filled up. -/
theorem values_of_decodeFrom {text : List UInt8} (hl : text.length % 4 = 0) {bytes : List UInt8}
    (h : decodeFrom offset text = .ok bytes) :
    ∃ values : List Nat, (∀ v ∈ values, v < 64) ∧ values.length % 4 ≠ 1 ∧
      text = fillUp (values.map symbol) := by
  induction text, hl using wholeGroups_induction generalizing offset bytes with
  | nil => exact ⟨[], by simp, by simp, rfl⟩
  | group a b c d rest _ ih =>
    cases rest with
    | nil => exact values_of_decodeLast h
    | cons e rest =>
      obtain ⟨group, hgroup, hrest⟩ := Text.bind_eq_ok h
      obtain ⟨others, hothers, -⟩ := Text.bind_eq_ok hrest
      obtain ⟨s, t, u, v, ⟨hs, ht, hu, hv⟩, rfl, rfl, rfl, rfl⟩ := symbols_of_decodeGroup hgroup
      obtain ⟨values, hvalues, hne, hrest⟩ := ih hothers
      refine ⟨s :: t :: u :: v :: values, by simpa using ⟨hs, ht, hu, hv, hvalues⟩, ?_, ?_⟩
      · rwa [length_group_mod]
      · simp only [List.map_cons, fillUp_group, hrest]

end Base64

namespace Token

open Base64

/-! ## Padding -/

theorem padding_notMem_of_isSymbol {text : List UInt8} (h : text.all isSymbol = true) :
    padding ∉ text := by
  intro hmem
  have hsymbol := List.all_eq_true.1 h padding hmem
  rw [isSymbol_padding] at hsymbol
  cases hsymbol

/-- A text comes to the same as the symbols it begins with exactly when no more than the missing
padding stands behind them. -/
theorem fillUp_eq_fillUp_iff {text body : List UInt8} (h : body.all isSymbol = true) :
    fillUp text = fillUp body ↔
      ∃ j ≤ (4 - body.length % 4) % 4, text = body ++ List.replicate j padding := by
  constructor
  · intro heq
    unfold fillUp at heq
    have hcount := congrArg (List.count padding) heq
    rw [List.count_append, List.count_append, List.count_replicate_self, List.count_replicate_self,
      List.count_eq_zero_of_not_mem (padding_notMem_of_isSymbol h)] at hcount
    obtain ⟨j, hj⟩ : ∃ j, (4 - body.length % 4) % 4 = j + (4 - text.length % 4) % 4 :=
      ⟨text.count padding, by omega⟩
    refine ⟨j, by omega, ?_⟩
    rw [hj, ← List.replicate_append_replicate, ← List.append_assoc] at heq
    exact List.append_cancel_right heq
  · rintro ⟨j, hj, rfl⟩
    have hrest : j + (4 - (body.length + j) % 4) % 4 = (4 - body.length % 4) % 4 := by omega
    rw [fillUp, List.length_append, List.length_replicate, List.append_assoc,
      List.replicate_append_replicate, hrest, fillUp]

theorem exists_values_of_decodeBytes {text bytes : List UInt8}
    (h : Base64.decodeBytes (fillUp text) = .ok bytes) :
    ∃ (values : List Nat) (j : Nat), (∀ v ∈ values, v < 64) ∧ values.length % 4 ≠ 1 ∧
      j ≤ (4 - values.length % 4) % 4 ∧ text = values.map symbol ++ List.replicate j padding := by
  rw [decodeBytes_fillUp_eq] at h
  obtain ⟨values, hvalues, hne, heq⟩ := values_of_decodeFrom (length_fillUp_mod text) h
  obtain ⟨j, hj, htext⟩ := (fillUp_eq_fillUp_iff (all_isSymbol_map hvalues)).1 heq
  rw [List.length_map] at hj
  exact ⟨values, j, hvalues, hne, hj, htext⟩

/-! ## Texts of characters -/

theorem alphabet_toList : alphabet.toList = symbols.map Char.ofUInt8 := by
  decide

theorem isSymbolic_iff_forall_mem {u : String} :
    isSymbolic u = true ↔ ∀ c ∈ u.toList, c ∈ alphabet.toList := by
  constructor
  · intro h c hc
    rw [← ofAscii_bytes_of_isSymbolic h, Text.toList_ofAscii] at hc
    obtain ⟨byte, hbyte, rfl⟩ := List.mem_map.1 hc
    rw [alphabet_toList]
    exact List.mem_map_of_mem (List.isSome_idxOf?.1 (List.all_eq_true.1 h byte hbyte))
  · intro h
    rw [isSymbolic, List.all_eq_true, Text.bytes_eq_flatMap]
    intro byte hbyte
    obtain ⟨c, hc, hmem⟩ := List.mem_flatMap.1 hbyte
    have hletter := h c hc
    rw [alphabet_toList] at hletter
    obtain ⟨letter, hsymbol, rfl⟩ := List.mem_map.1 hletter
    have hlt : letter < 128 := symbols_lt letter hsymbol
    rw [Text.utf8EncodeChar_ofUInt8 hlt, List.mem_singleton] at hmem
    rw [hmem]
    exact List.isSome_idxOf?.2 hsymbol

/-- A text without the marker behind it: without its last character if that is the marker and the
text has one byte more than whole groups. -/
def unmarked (s : String) : String :=
  if s.utf8ByteSize % 4 = 1 ∧ s.toList.getLast? = some 'A' then String.ofList s.toList.dropLast
  else s

theorem bytes_unmarked (s : String) : Text.bytes (unmarked s) = dropMarker (Text.bytes s) := by
  have hmarker : (Text.bytes s).getLast? = some marker ↔ s.toList.getLast? = some 'A' :=
    Text.getLast?_bytes_eq_iff (by decide)
  unfold unmarked dropMarker
  rw [← Text.length_bytes]
  by_cases h : (Text.bytes s).length % 4 = 1 ∧ s.toList.getLast? = some 'A'
  · obtain ⟨front, hs⟩ := List.getLast?_eq_some_iff.1 h.2
    have hbytes : Text.bytes s = front.flatMap String.utf8EncodeChar ++ [marker] := by
      rw [Text.bytes_eq_flatMap, hs, List.flatMap_append]
      rfl
    rw [if_pos h, if_pos ⟨h.1, hmarker.2 h.2⟩, Text.bytes_ofList, hs, List.dropLast_concat, hbytes,
      List.dropLast_concat]
  · rw [if_neg h, if_neg fun hm => h ⟨hm.1, hmarker.1 hm.2⟩]

/-- A text that is `u` with some of its padding, and perhaps a marker, behind it. -/
structure IsFilled (s u : String) (j : ℕ) : Prop where
  eq_append : unmarked s = u ++ String.ofList (List.replicate j '=')
  symbols : ∀ c ∈ u.toList, c ∈ alphabet.toList
  /-- A single symbol behind whole groups is less than a byte. -/
  not_dangling : u.length % 4 ≠ 1
  /-- There is no more padding than brings the symbols up to whole groups. -/
  padding_le : j ≤ (4 - u.length % 4) % 4

theorem bytes_append_padding (u : String) (j : ℕ) :
    Text.bytes (u ++ String.ofList (List.replicate j '='))
      = Text.bytes u ++ List.replicate j padding := by
  have hpadding : (List.replicate j '=').flatMap String.utf8EncodeChar
      = List.replicate j padding := by
    induction j with
    | zero => rfl
    | succ j ih =>
      rw [List.replicate_succ, List.flatMap_cons, ih]
      rfl
  rw [Text.bytes_append, Text.bytes_ofList, hpadding]

theorem length_bytes_of_isSymbolic {u : String} (h : isSymbolic u = true) :
    (Text.bytes u).length = u.length := by
  rw [← Text.length_ofAscii, ofAscii_bytes_of_isSymbolic h]

/-- Neither the marker nor the padding tells anything. -/
theorem IsFilled.decode_eq {s u : String} {j : ℕ} (h : IsFilled s u j) : decode s = decode u := by
  have hsymbolic := isSymbolic_iff_forall_mem.2 h.symbols
  have hlength := length_bytes_of_isSymbolic hsymbolic
  have hbody : dropMarker (Text.bytes u) = Text.bytes u := by
    rw [dropMarker, hlength, if_neg fun hm => h.not_dangling hm.1]
  have hfill : fillUp (dropMarker (Text.bytes s)) = fillUp (Text.bytes u) := by
    refine (fillUp_eq_fillUp_iff hsymbolic).2 ⟨j, ?_, ?_⟩
    · rw [hlength]
      exact h.padding_le
    · rw [← bytes_unmarked, h.eq_append, bytes_append_padding]
  rw [decode, decode, decodeBytes, decodeBytes, hfill, hbody]

theorem IsFilled.exists_decode {s u : String} {j : ℕ} (h : IsFilled s u j) :
    ∃ bytes, decode s = .ok bytes := by
  have hsymbolic := isSymbolic_iff_forall_mem.2 h.symbols
  have hdangling : ¬ IsDangling u := by
    rintro ⟨hone, -⟩
    rw [length_bytes_of_isSymbolic hsymbolic] at hone
    exact h.not_dangling hone
  obtain ⟨bytes, hbytes, -⟩ := Token.exists_decode hsymbolic hdangling
  exact ⟨bytes, h.decode_eq.trans hbytes⟩

theorem exists_isFilled_of_decode {s : String} {bytes : List UInt8} (h : decode s = .ok bytes) :
    ∃ u j, IsFilled s u j := by
  obtain ⟨values, j, hvalues, hne, hj, htext⟩ := exists_values_of_decodeBytes h
  have hbytes : Text.bytes (Text.ofAscii (values.map symbol)) = values.map symbol := by
    refine Text.bytes_ofAscii fun byte hbyte => ?_
    obtain ⟨value, -, rfl⟩ := List.mem_map.1 hbyte
    exact symbol_lt value
  have hlength : (Text.ofAscii (values.map symbol)).length = values.length := by
    rw [Text.length_ofAscii, List.length_map]
  refine ⟨Text.ofAscii (values.map symbol), j, ?_⟩
  refine
    { eq_append := Text.bytes_injective ?_
      symbols := isSymbolic_iff_forall_mem.1 ?_
      not_dangling := by rwa [hlength]
      padding_le := by rwa [hlength] }
  · rw [bytes_unmarked, htext, bytes_append_padding, hbytes]
  · rw [isSymbolic, hbytes]
    exact all_isSymbol_map hvalues

/-- The texts that are read are the texts of symbols with some of their padding and perhaps the
marker behind, and each stands for what its symbols stand for. Every other text is refused, with a
fault of the encoding that says what base64 makes of it. -/
theorem exists_decode_iff_isFilled (s : String) :
    ((∃ bytes, decode s = .ok bytes) ↔ ∃ u j, IsFilled s u j) ∧
    (∀ u j, IsFilled s u j → decode s = decode u) ∧
    ((¬ ∃ u j, IsFilled s u j) → ∃ cause, decode s = .error cause ∧
      (Fault.encoding (.base64 cause)).kind = .encoding ∧
      (Fault.encoding (.base64 cause)).detail = "invalid base64: " ++ cause.message) := by
  have hiff : (∃ bytes, decode s = .ok bytes) ↔ ∃ u j, IsFilled s u j := by
    constructor
    · rintro ⟨bytes, hbytes⟩
      exact exists_isFilled_of_decode hbytes
    · rintro ⟨u, j, h⟩
      exact h.exists_decode
  refine ⟨hiff, fun u j h => h.decode_eq, fun hnone => ?_⟩
  cases hdecode : decode s with
  | error cause => exact ⟨cause, rfl, rfl, rfl⟩
  | ok bytes => exact absurd (hiff.1 ⟨bytes, hdecode⟩) hnone

/-- The token `/w` is read also with its padding in full and a marker behind, as it is with half of
its padding. A text that begins with padding is refused, and so is one with a letter outside
ASCII. -/
theorem exists_decode_iff_isFilled_small :
    IsFilled "/w==A" "/w" 2 ∧ decode "/w==A" = decode "/w" ∧ decode "/w" = .ok [255] ∧
      IsFilled "/w=" "/w" 1 ∧ (∃ bytes, decode "/w=" = .ok bytes) ∧
      (¬ ∃ u j, IsFilled "=AAA" u j) ∧ (∃ cause, decode "=AAA" = .error cause ∧
        (Fault.encoding (.base64 cause)).kind = .encoding ∧
        (Fault.encoding (.base64 cause)).detail = "invalid base64: " ++ cause.message) ∧
      ¬ ∃ u j, IsFilled "AAé" u j := by
  have hsymbols : ∀ c ∈ "/w".toList, c ∈ alphabet.toList :=
    isSymbolic_iff_forall_mem.1 (by decide)
  have hfull : IsFilled "/w==A" "/w" 2 := ⟨by decide, hsymbols, by decide, by decide⟩
  have hhalf : IsFilled "/w=" "/w" 1 := ⟨by decide, hsymbols, by decide, by decide⟩
  have hpadding : ¬ ∃ u j, IsFilled "=AAA" u j := by
    intro h
    obtain ⟨bytes, hbytes⟩ := (exists_decode_iff_isFilled "=AAA").1.2 h
    cases (rfl : decode "=AAA" = .error (.invalidSymbol 61 0)).symm.trans hbytes
  have hletter : ¬ ∃ u j, IsFilled "AAé" u j := by
    intro h
    obtain ⟨bytes, hbytes⟩ := (exists_decode_iff_isFilled "AAé").1.2 h
    cases (rfl : decode "AAé" = .error (.invalidSymbol 195 2)).symm.trans hbytes
  exact ⟨hfull, (exists_decode_iff_isFilled "/w==A").2.1 _ _ hfull, rfl, hhalf,
    (exists_decode_iff_isFilled "/w=").1.2 ⟨_, _, hhalf⟩, hpadding,
    (exists_decode_iff_isFilled "=AAA").2.2 hpadding, hletter⟩

end Token

end KeyAgreement
