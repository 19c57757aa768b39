import KeyAgreement.Fault
import KeyAgreement.Proofs.Numerals
import Mathlib.Data.Set.Function
import Mathlib.Order.Bounds.Basic
import Mathlib.Order.Interval.Set.Defs

/-!
# Writing undoes reading

The numerals of a width are read one to one onto the numbers below a power of 256 (`bijOn_toNat`),
so a number that fits has one numeral of the width, which is the one that is written, and a number
that does not fit has none. What is left to say is how many bytes would have been needed: the fewest
that any numeral of the number has.

Zero has the empty numeral, and yet counts as one byte, so the width of zero is the one place where
something is refused that could have been written. The main statement is `isInverse_iff`.
-/

namespace KeyAgreement.BigEndian

variable {width n k : ℕ} {bs : List UInt8}

/-! ## Numerals of a width -/

theorem bijOn_toNat (width : ℕ) :
    Set.BijOn toNat {bs | bs.length = width} (Set.Iio (256 ^ width)) := by
  refine ⟨?_, ?_, ?_⟩
  · rintro bs rfl
    exact toNat_lt bs
  · intro as has bs hbs heq
    rw [← padTo_toNat has, heq, padTo_toNat hbs]
  · intro n hn
    exact ⟨padTo width n, length_padTo .., by rw [toNat_padTo, Nat.mod_eq_of_lt hn]⟩

/-- The lengths of the numerals of a number. -/
def lengths (n : ℕ) : Set ℕ := {k | ∃ bs : List UInt8, bs.length = k ∧ toNat bs = n}

theorem mem_lengths_iff : k ∈ lengths n ↔ n < 256 ^ k := by
  rw [← Set.mem_Iio, ← (bijOn_toNat k).image_eq]
  rfl

theorem isLeast_lengths (hn : 0 < n) : IsLeast (lengths n) (minimalWidth n) :=
  ⟨mem_lengths_iff.2 ((minimalWidth_le_iff (.inr hn)).1 (Nat.le_refl _)),
    fun _ hk => (minimalWidth_le_iff (.inr hn)).2 (mem_lengths_iff.1 hk)⟩

/-! ## Writing into a width -/

theorem toFixed_eq_ok_iff_toNat (h : 0 < width ∨ 0 < n) :
    toFixed width n = .ok bs ↔ bs.length = width ∧ toNat bs = n := by
  rw [toFixed_eq_ok_iff h]
  constructor
  · rintro ⟨hlt, rfl⟩
    exact ⟨length_padTo .., by rw [toNat_padTo, Nat.mod_eq_of_lt hlt]⟩
  · rintro ⟨rfl, rfl⟩
    exact ⟨toNat_lt bs, (padTo_toNat rfl).symm⟩

/-- Writing a number into a width is the inverse of reading: it gives the bytes of the width that
are read as the number, and fails only where there are none. -/
structure IsInverse (width n : ℕ) : Prop where
  eq_ok_iff : ∀ bs, toFixed width n = .ok bs ↔ bs.length = width ∧ toNat bs = n
  exists_error_iff : (∃ fault, toFixed width n = .error fault) ↔ 256 ^ width ≤ n
  /-- The fault tells the fewest bytes that the number is read from, and the width. -/
  isLeast_of_error : ∀ fault, toFixed width n = .error fault →
    IsLeast (lengths n) fault.needed ∧ fault.available = width

theorem isInverse (h : 0 < width ∨ 0 < n) : IsInverse width n where
  eq_ok_iff _ := toFixed_eq_ok_iff_toNat h
  exists_error_iff := by
    constructor
    · rintro ⟨fault, hfault⟩
      exact ((toFixed_eq_error_iff h).1 hfault).1
    · intro hle
      exact ⟨_, (toFixed_eq_error_iff h).2 ⟨hle, rfl⟩⟩
  isLeast_of_error fault hfault := by
    obtain ⟨hle, rfl⟩ := (toFixed_eq_error_iff h).1 hfault
    have hn : 0 < n := Nat.lt_of_lt_of_le (Nat.pow_pos (by decide)) hle
    exact ⟨isLeast_lengths hn, rfl⟩

/-- Writing into a width is the inverse of reading for every number and width but one pair: zero is
refused in the width of zero, as it counts as one byte, although the empty numeral is read as
zero. -/
theorem isInverse_iff :
    (∀ bs, toNat bs = Nat.ofDigits 256 (bs.map UInt8.toNat).reverse) ∧
    (∀ width n, IsInverse width n ↔ ¬ (n = 0 ∧ width = 0)) ∧
    (toFixed 0 0 = .error ⟨1, 0⟩ ∧ ∀ bs, bs.length = 0 ∧ toNat bs = 0 ↔ bs = []) ∧
    ∀ fault : TooWide, (KeyAgreement.Fault.encoding (.tooWide fault)).message
      = s!"Encoding error: value needs {fault.needed} bytes, buffer holds {fault.available}" := by
  refine ⟨toNat_eq_ofDigits, ?_, ⟨rfl, ?_⟩, fun fault => rfl⟩
  · intro width n
    constructor
    · rintro h ⟨rfl, rfl⟩
      cases (h.eq_ok_iff []).2 ⟨rfl, rfl⟩
    · intro h
      exact isInverse (by omega)
  · intro bs
    constructor
    · rintro ⟨hlen, -⟩
      exact List.eq_nil_of_length_eq_zero hlen
    · rintro rfl
      exact ⟨rfl, rfl⟩

/-- The largest number of two bytes is written, and the next needs a third. -/
example : toFixed 2 65535 = .ok [255, 255] ∧ toFixed 2 65536 = .error ⟨3, 2⟩ ∧
    toFixed 4 0x0102 = .ok [0, 0, 1, 2] := by
  decide

end KeyAgreement.BigEndian
