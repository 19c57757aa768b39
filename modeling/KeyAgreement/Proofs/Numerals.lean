import KeyAgreement.BigEndian
import Mathlib.Algebra.Group.Nat.Defs
import Mathlib.Data.List.Induction
import Mathlib.Data.Nat.Digits.Defs
import Mathlib.Data.Nat.Size

/-!
# What numerals denote

A numeral of `w` bytes denotes a number below `256 ^ w`, and every number below is denoted by
exactly one such numeral. The main statements are `toNat_padTo` (a written numeral reads back modulo
the width) and `byteLength_le_iff` (a number fits into `w` bytes exactly when it is below
`256 ^ w`).
-/

namespace KeyAgreement.BigEndian

/-! ## Reading -/

/-- Reading from a number already read shifts that number by the bytes still to come. -/
theorem foldl_eq (bs : List UInt8) (n : Nat) :
    bs.foldl (fun n b => 256 * n + b.toNat) n = n * 256 ^ bs.length + toNat bs := by
  induction bs generalizing n with
  | nil => simp
  | cons b bs ih =>
    have here := ih (256 * n + b.toNat)
    have alone := ih b.toNat
    simp only [toNat, List.foldl_cons, Nat.mul_zero, Nat.zero_add] at here alone ⊢
    rw [here, alone, List.length_cons, Nat.pow_succ, Nat.add_mul, Nat.mul_comm 256 n, Nat.mul_assoc,
      Nat.mul_comm 256, Nat.add_assoc]

theorem toNat_cons (b : UInt8) (bs : List UInt8) :
    toNat (b :: bs) = b.toNat * 256 ^ bs.length + toNat bs := by
  rw [toNat, List.foldl_cons, foldl_eq]
  simp

theorem toNat_append (as bs : List UInt8) :
    toNat (as ++ bs) = toNat as * 256 ^ bs.length + toNat bs := by
  rw [toNat, List.foldl_append, foldl_eq]
  rfl

@[simp] theorem toNat_replicate_zero (k : Nat) : toNat (List.replicate k 0) = 0 := by
  induction k with
  | zero => rfl
  | succ k ih => simp [List.replicate_succ, toNat_cons, ih]

/-- A numeral of `w` bytes denotes a number below `256 ^ w`. -/
theorem toNat_lt (bs : List UInt8) : toNat bs < 256 ^ bs.length := by
  induction bs with
  | nil => simp
  | cons b bs ih =>
    rw [toNat_cons, List.length_cons, Nat.pow_succ]
    have hb : b.toNat < 256 := b.toNat_lt
    calc b.toNat * 256 ^ bs.length + toNat bs
        < b.toNat * 256 ^ bs.length + 256 ^ bs.length := by omega
      _ = (b.toNat + 1) * 256 ^ bs.length := by rw [Nat.succ_mul]
      _ ≤ 256 * 256 ^ bs.length := Nat.mul_le_mul_right _ hb
      _ = 256 ^ bs.length * 256 := Nat.mul_comm ..

/-- A numeral denotes the sum of its base-256 digits by their places. -/
theorem toNat_eq_ofDigits (bs : List UInt8) :
    toNat bs = Nat.ofDigits 256 (bs.map UInt8.toNat).reverse := by
  induction bs using List.reverseRecOn with
  | nil => rfl
  | append_singleton bs b ih =>
    rw [toNat_concat, ih, List.map_append, List.map_singleton, List.reverse_append,
      List.reverse_singleton, List.singleton_append, Nat.ofDigits_cons, Nat.add_comm]

/-! ## Lengths -/

/-- A number reaches the power below the least one that is above it. -/
theorem pow_pred_le {b n width : ℕ} (hn : n ≠ 0) (h : ∀ k, width ≤ k ↔ n < b ^ k) :
    b ^ (width - 1) ≤ n := by
  by_contra hlt
  have hshort : width ≤ width - 1 := (h _).2 (Nat.lt_of_not_le hlt)
  have hzero : n < b ^ 0 := (h 0).1 (by omega)
  rw [Nat.pow_zero] at hzero
  omega

theorem bitLength_le_iff {n k : Nat} : bitLength n ≤ k ↔ n < 2 ^ k := by
  unfold bitLength
  by_cases h : n = 0
  · rw [if_pos h, h]
    exact iff_of_true (Nat.zero_le k) (Nat.two_pow_pos k)
  · rw [if_neg h, Nat.succ_le_iff, Nat.log2_lt h]

theorem byteLength_le_iff {n w : Nat} : byteLength n ≤ w ↔ n < 256 ^ w := by
  have h : (256 : Nat) ^ w = 2 ^ (8 * w) := by rw [Nat.pow_mul]
  rw [h, ← bitLength_le_iff]
  unfold byteLength
  omega

theorem bitLength_eq_size (n : ℕ) : bitLength n = n.size :=
  Nat.le_antisymm (bitLength_le_iff.2 n.lt_size_self)
    (Nat.size_le.2 (bitLength_le_iff.1 (Nat.le_refl _)))

/-- A number fits into a width exactly when it is below `256 ^ width`, but zero takes a byte. -/
theorem minimalWidth_le_iff {n width : Nat} (h : 0 < width ∨ 0 < n) :
    minimalWidth n ≤ width ↔ n < 256 ^ width := by
  have hzero : byteLength n ≤ 0 ↔ n < 1 := byteLength_le_iff
  rw [← byteLength_le_iff]
  unfold minimalWidth
  omega

theorem minimalWidth_eq {n needed : ℕ} (hn : n ≠ 0) (h : ∀ k, needed ≤ k ↔ n < 256 ^ k) :
    minimalWidth n = needed :=
  eq_of_forall_ge_iff fun k =>
    (minimalWidth_le_iff (.inr (Nat.pos_of_ne_zero hn))).trans (h k).symm

/-! ## Writing -/

theorem toNat_padTo (w n : Nat) : toNat (padTo w n) = n % 256 ^ w := by
  induction w generalizing n with
  | zero => simp [Nat.mod_one]
  | succ w ih =>
    rw [padTo_succ, toNat_concat, ih, Nat.pow_succ, Nat.mul_comm (256 ^ w) 256, Nat.mod_mul]
    simp
    omega

/-- Writing what was read gives the bytes back when the width is kept. -/
theorem padTo_toNat {w : Nat} {bs : List UInt8} (h : bs.length = w) : padTo w (toNat bs) = bs := by
  induction w generalizing bs with
  | zero => rw [List.eq_nil_of_length_eq_zero h, padTo_zero]
  | succ w ih =>
    rcases List.eq_nil_or_concat bs with rfl | ⟨front, last, rfl⟩
    · simp at h
    · have hfront : front.length = w := by simpa using h
      have hlast := last.toNat_lt
      have high : (256 * toNat front + last.toNat) / 256 = toNat front := by omega
      have low : UInt8.ofNat (256 * toNat front + last.toNat) = last := by
        rw [← UInt8.toNat_inj, UInt8.toNat_ofNat']
        omega
      rw [List.concat_eq_append, toNat_concat, padTo_succ, high, low, ih hfront]

@[simp] theorem toNat_minimal (n : Nat) : toNat (minimal n) = n := by
  have h : n < 256 ^ minimalWidth n := byteLength_le_iff.1 (Nat.le_max_right ..)
  rw [minimal, toNat_padTo, Nat.mod_eq_of_lt h]

theorem minimal_inj {m n : Nat} : minimal m = minimal n ↔ m = n := by
  constructor
  · intro h
    rw [← toNat_minimal m, h, toNat_minimal]
  · intro h
    rw [h]

/-- The shortest form is the one that does not begin with a zero byte. -/
theorem eq_minimal_of_head {n : ℕ} {bs : List UInt8} (hn : n ≠ 0) (h : toNat bs = n)
    (hhead : bs.head? ≠ some 0) : bs = minimal n := by
  cases bs with
  | nil => exact absurd h.symm hn
  | cons b rest =>
    have hb : b.toNat ≠ 0 := by
      intro h0
      exact hhead (congrArg some (UInt8.toNat_inj.1 h0))
    have hfits : byteLength n ≤ rest.length + 1 := by
      rw [byteLength_le_iff, ← h]
      exact toNat_lt (b :: rest)
    have hfull : ¬ byteLength n ≤ rest.length := by
      rw [byteLength_le_iff, ← h, toNat_cons, Nat.not_lt]
      exact Nat.le_add_right_of_le (Nat.le_mul_of_pos_left _ (Nat.pos_of_ne_zero hb))
    have hwidth : (b :: rest).length = minimalWidth n := by
      rw [List.length_cons, minimalWidth]
      omega
    rw [minimal, ← h, padTo_toNat (h ▸ hwidth)]

theorem head_minimal_ne {n : ℕ} (hn : n ≠ 0) : (minimal n).head? ≠ some 0 := by
  intro hhead
  cases hm : minimal n with
  | nil =>
    rw [hm] at hhead
    cases hhead
  | cons b rest =>
    rw [hm] at hhead
    obtain rfl : b = 0 := Option.some.inj hhead
    have hlen : rest.length + 1 = minimalWidth n := by
      rw [← length_minimal, hm, List.length_cons]
    have hrest : toNat rest = n := by
      rw [← toNat_minimal n, hm, toNat_cons]
      simp
    have hshort : byteLength n ≤ rest.length := byteLength_le_iff.2 (hrest ▸ toNat_lt rest)
    have hpos : ¬ byteLength n ≤ 0 := by
      rw [byteLength_le_iff, Nat.pow_zero]
      omega
    rw [minimalWidth] at hlen
    omega

/-- A number is written exactly when it is below `256 ^ width`. -/
theorem toFixed_eq_ok_iff {width n : Nat} {bs : List UInt8} (h : 0 < width ∨ 0 < n) :
    toFixed width n = .ok bs ↔ n < 256 ^ width ∧ bs = padTo width n := by
  have fits := minimalWidth_le_iff h
  unfold toFixed
  by_cases hw : minimalWidth n ≤ width
  · rw [if_pos hw]
    simp [fits.1 hw, eq_comm]
  · rw [if_neg hw]
    simp [mt fits.2 hw]

theorem toFixed_eq_error_iff {width n : Nat} {fault : TooWide} (h : 0 < width ∨ 0 < n) :
    toFixed width n = .error fault ↔ 256 ^ width ≤ n ∧ fault = ⟨minimalWidth n, width⟩ := by
  have fits := minimalWidth_le_iff h
  unfold toFixed
  by_cases hw : minimalWidth n ≤ width
  · rw [if_pos hw]
    simp [fits.1 hw]
  · rw [if_neg hw]
    simp [Nat.not_lt.1 (mt fits.2 hw), eq_comm]

end KeyAgreement.BigEndian
