import KeyAgreement.Text
import Mathlib.Data.List.Basic

/-!
# What the bytes of a text tell

A text is determined by its bytes, and an ASCII character is told by its one byte wherever it
stands: the bytes that a character outside ASCII is written with all have their high bit set. So
rules that are stated for bytes can be read as rules for characters, and the other way round.

The main statements are `ofAscii_bytes`, `getLast?_bytes_eq_iff` and, for the offsets at which a
text can be cut, `exists_standsAt` and `exists_append_of_byte`.
-/

namespace KeyAgreement.Text

/-! ## Bytes and texts -/

theorem bytes_injective {s t : String} (h : bytes s = bytes t) : s = t := by
  have hdata : s.toUTF8.data = t.toUTF8.data := Array.toList_inj.1 h
  exact String.toByteArray_inj.1 (ByteArray.ext hdata)

theorem ofAscii_bytes {s : String} (h : ∀ b ∈ bytes s, b < 128) : ofAscii (bytes s) = s :=
  bytes_injective (bytes_ofAscii h)

theorem length_bytes (s : String) : (bytes s).length = s.utf8ByteSize := rfl

theorem bytes_eq_flatMap (s : String) : bytes s = s.toList.flatMap String.utf8EncodeChar := by
  rw [← bytes_ofList, String.ofList_toList]

theorem bytes_append (s t : String) : bytes (s ++ t) = bytes s ++ bytes t := by
  rw [bytes_eq_flatMap, String.toList_append, List.flatMap_append, ← bytes_eq_flatMap,
    ← bytes_eq_flatMap]

theorem toList_ofAscii (bs : List UInt8) : (ofAscii bs).toList = bs.map Char.ofUInt8 := by
  rw [ofAscii, String.toList_ofList]

theorem length_ofAscii (bs : List UInt8) : (ofAscii bs).length = bs.length := by
  rw [ofAscii, String.length_ofList, List.length_map]

theorem toList_toLower (s : String) : s.toLower.toList = s.toList.map Char.toLower :=
  String.toList_map

/-! ## Bytes and characters -/

theorem ofUInt8_ofNat {c : Char} (h : c.val.toNat ≤ 127) :
    Char.ofUInt8 (UInt8.ofNat c.val.toNat) = c := by
  apply Char.ext
  apply UInt32.toNat_inj.1
  show (UInt8.ofNat c.val.toNat).toUInt32.toNat = c.val.toNat
  rw [UInt8.toNat_toUInt32, UInt8.toNat_ofNat']
  omega

theorem not_ofNat_lt {n : Nat} (hle : 128 ≤ n) (hlt : n < 256) : ¬ UInt8.ofNat n < 128 := by
  intro h
  have hn : (UInt8.ofNat n).toNat < 128 := UInt8.lt_iff_toNat_lt.1 h
  rw [UInt8.toNat_ofNat'] at hn
  omega

/-- A character outside ASCII is written with bytes outside ASCII only. -/
theorem not_lt_of_mem_utf8EncodeChar {c : Char} (h : ¬ c.val.toNat ≤ 127) {b : UInt8}
    (hb : b ∈ String.utf8EncodeChar c) : ¬ b < 128 := by
  simp only [String.utf8EncodeChar, if_neg h] at hb
  -- two, three or four bytes
  split at hb
  · simp only [List.mem_cons, List.not_mem_nil, or_false] at hb
    rcases hb with rfl | rfl <;> exact not_ofNat_lt (by omega) (by omega)
  · split at hb
    · simp only [List.mem_cons, List.not_mem_nil, or_false] at hb
      rcases hb with rfl | rfl | rfl <;> exact not_ofNat_lt (by omega) (by omega)
    · simp only [List.mem_cons, List.not_mem_nil, or_false] at hb
      rcases hb with rfl | rfl | rfl | rfl <;> exact not_ofNat_lt (by omega) (by omega)

theorem eq_ofUInt8_of_mem_utf8EncodeChar {c : Char} {b : UInt8} (h : b < 128)
    (hb : b ∈ String.utf8EncodeChar c) : c = Char.ofUInt8 b := by
  by_cases hc : c.val.toNat ≤ 127
  · rw [String.utf8EncodeChar, if_pos hc, List.mem_singleton] at hb
    rw [hb, ofUInt8_ofNat hc]
  · exact absurd h (not_lt_of_mem_utf8EncodeChar hc hb)

/-- Where an ASCII byte is the last of a text, its character is the last. -/
theorem getLast?_bytes_eq_iff {s : String} {b : UInt8} (h : b < 128) :
    (bytes s).getLast? = some b ↔ s.toList.getLast? = some (Char.ofUInt8 b) := by
  rw [bytes_eq_flatMap]
  rcases List.eq_nil_or_concat s.toList with hs | ⟨front, c, hs⟩
  · rw [hs]
    simp
  · rw [hs, List.concat_eq_append, List.flatMap_append, List.flatMap_singleton,
      List.getLast?_concat]
    constructor
    · intro hlast
      have hmem : b ∈ String.utf8EncodeChar c := by
        rw [List.getLast?_append_of_ne_nil _ String.utf8EncodeChar_ne_nil] at hlast
        exact List.mem_of_getLast? hlast
      rw [← eq_ofUInt8_of_mem_utf8EncodeChar h hmem]
    · intro hc
      rw [Option.some.inj hc, utf8EncodeChar_ofUInt8 h, List.getLast?_concat]

/-! ## Cutting a text -/

/-- An offset, counted in bytes, between two characters of a text or at one of its ends. -/
def IsCut (s : String) (i : Nat) : Prop :=
  ∃ front back, s = front ++ back ∧ (bytes front).length = i

/-- The first text is a part of the second, from an offset on that is counted in bytes. -/
def StandsAt (part s : String) (i : Nat) : Prop :=
  ∃ front back, s = front ++ part ++ back ∧ (bytes front).length = i

theorem StandsAt.isCut {part s : String} {i : Nat} (h : StandsAt part s i) :
    IsCut s i ∧ IsCut s (i + (bytes part).length) := by
  obtain ⟨front, back, rfl, rfl⟩ := h
  refine ⟨⟨front, part ++ back, String.append_assoc .., rfl⟩, ⟨front ++ part, back, rfl, ?_⟩⟩
  rw [bytes_append, List.length_append]

/-- The bytes of a part are those at its offset. -/
theorem StandsAt.bytes_eq {part s : String} {front middle back : List UInt8}
    (h : StandsAt part s front.length) (hs : bytes s = front ++ (middle ++ back))
    (hlength : (bytes part).length = middle.length) : bytes part = middle := by
  obtain ⟨before, after, rfl, hbefore⟩ := h
  rw [bytes_append, bytes_append, List.append_assoc] at hs
  obtain ⟨-, hrest⟩ := List.append_inj hs hbefore
  exact (List.append_inj hrest hlength).1

/-- What lies between two cuts is a text again. -/
theorem exists_standsAt {s : String} {i n : Nat} (hi : IsCut s i) (hn : IsCut s (i + n)) :
    ∃ part, StandsAt part s i ∧ (bytes part).length = n := by
  obtain ⟨front, rest, hs, hfront⟩ := hi
  obtain ⟨upTo, back, hs', hupTo⟩ := hn
  have hpre : front.toList <+: s.toList := ⟨rest.toList, by rw [hs, String.toList_append]⟩
  have hpre' : upTo.toList <+: s.toList := ⟨back.toList, by rw [hs', String.toList_append]⟩
  -- the longer of the two prefixes is the one with more bytes
  rcases List.prefix_or_prefix_of_prefix hpre hpre' with ⟨cs, hcs⟩ | ⟨cs, hcs⟩
  · obtain rfl : upTo = front ++ String.ofList cs :=
      String.toList_inj.1 (by rw [String.toList_append, String.toList_ofList, hcs])
    rw [bytes_append, List.length_append, hfront] at hupTo
    exact ⟨String.ofList cs, ⟨front, back, hs', hfront⟩, by omega⟩
  · obtain rfl : front = upTo ++ String.ofList cs :=
      String.toList_inj.1 (by rw [String.toList_append, String.toList_ofList, hcs])
    rw [bytes_append, List.length_append, hupTo] at hfront
    refine ⟨"", ⟨upTo ++ String.ofList cs, rest, by rw [String.append_empty, hs], ?_⟩, ?_⟩
    · rw [bytes_append, List.length_append, hupTo, hfront]
    · show 0 = n
      omega

theorem exists_append_of_flatMap {cs : List Char} {front back : List UInt8} {b : UInt8}
    (hb : b < 128) (h : cs.flatMap String.utf8EncodeChar = front ++ b :: back) :
    ∃ before after, cs = before ++ Char.ofUInt8 b :: after ∧
      before.flatMap String.utf8EncodeChar = front ∧
      after.flatMap String.utf8EncodeChar = back := by
  induction cs generalizing front with
  | nil => cases front <;> cases h
  | cons c cs ih =>
    rw [List.flatMap_cons, List.append_eq_append_iff] at h
    rcases h with ⟨rest, rfl, hrest⟩ | ⟨rest, hc, hrest⟩
    · obtain ⟨before, after, rfl, rfl, rfl⟩ := ih hrest
      exact ⟨c :: before, after, rfl, List.flatMap_cons .., rfl⟩
    · cases rest with
      | nil =>
        have hnext : cs.flatMap String.utf8EncodeChar = [] ++ b :: back := hrest.symm
        obtain ⟨before, after, rfl, hbefore, rfl⟩ := ih hnext
        refine ⟨c :: before, after, rfl, ?_, rfl⟩
        rw [List.flatMap_cons, hbefore, hc, List.append_nil, List.append_nil]
      | cons b' rest =>
        obtain ⟨rfl, hback⟩ := List.cons.inj hrest
        have hmem : b ∈ String.utf8EncodeChar c := by
          rw [hc]
          exact List.mem_append_right _ (List.mem_cons_self ..)
        -- the byte is the whole character, so nothing stands before it and nothing is left over
        obtain rfl := eq_ofUInt8_of_mem_utf8EncodeChar hb hmem
        rw [utf8EncodeChar_ofUInt8 hb, eq_comm, List.append_eq_singleton_iff] at hc
        rcases hc with ⟨rfl, hcons⟩ | ⟨-, hcons⟩
        · obtain ⟨-, rfl⟩ := List.cons.inj hcons
          exact ⟨[], cs, rfl, rfl, hback.symm⟩
        · cases hcons

/-- Where an ASCII byte stands among the bytes of a text, its character stands in the text. -/
theorem exists_append_of_byte {s : String} {front back : List UInt8} {b : UInt8} (hb : b < 128)
    (h : bytes s = front ++ b :: back) :
    ∃ before after, s = before ++ ofAscii [b] ++ after ∧ bytes before = front ∧
      bytes after = back := by
  rw [bytes_eq_flatMap] at h
  obtain ⟨before, after, hs, hbefore, hafter⟩ := exists_append_of_flatMap hb h
  refine ⟨String.ofList before, String.ofList after, ?_, ?_, ?_⟩
  · apply String.toList_inj.1
    rw [hs, String.toList_append, String.toList_append, toList_ofAscii, String.toList_ofList,
      String.toList_ofList, List.append_assoc]
    rfl
  · rw [bytes_ofList, hbefore]
  · rw [bytes_ofList, hafter]

/-- Two ASCII bytes side by side are a part of the text of their own. -/
theorem standsAt_of_bytes {s : String} {front back : List UInt8} {b c : UInt8} (hb : b < 128)
    (hc : c < 128) (h : bytes s = front ++ b :: c :: back) :
    StandsAt (ofAscii [b, c]) s front.length := by
  obtain ⟨before, rest, rfl, rfl, hrest⟩ := exists_append_of_byte hb h
  have hnext : bytes rest = [] ++ c :: back := hrest
  obtain ⟨gap, after, rfl, hgap, -⟩ := exists_append_of_byte hc hnext
  obtain rfl : gap = "" := bytes_injective hgap
  refine ⟨before, after, ?_, rfl⟩
  apply String.toList_inj.1
  simp only [String.toList_append, toList_ofAscii, List.append_assoc]
  rfl

/-! ## Readers -/

/-- A reader that succeeds has succeeded at each of its steps. -/
theorem bind_eq_ok {ε α β : Type} {x : Except ε α} {f : α → Except ε β} {b : β}
    (h : x >>= f = .ok b) : ∃ a, x = .ok a ∧ f a = .ok b := by
  cases x with
  | error cause => cases h
  | ok a => exact ⟨a, rfl, h⟩

end KeyAgreement.Text
