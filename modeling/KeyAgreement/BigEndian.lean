/-!
# Natural numbers as big-endian bytes

Numbers travel as base-256 numerals, most significant byte first. `toNat` reads such a numeral and
is the view through which everything else here is understood: `padTo` writes the low digits of a
number into a chosen width, `minimal` writes a number without leading zero bytes, and `toFixed`
writes it into a chosen width or refuses when it does not fit.
-/

namespace KeyAgreement.BigEndian

/-! ## Reading -/

/-- The number that a base-256 numeral denotes, most significant byte first. Leading zero bytes do
not change it, and the empty numeral denotes zero. -/
def toNat (bs : List UInt8) : Nat := bs.foldl (fun n b => 256 * n + b.toNat) 0

@[simp] theorem toNat_nil : toNat [] = 0 := rfl

/-- One more byte at the low end. -/
theorem toNat_concat (bs : List UInt8) (b : UInt8) :
    toNat (bs ++ [b]) = 256 * toNat bs + b.toNat := by
  simp [toNat]

/-! ## Lengths -/

/-- The number of binary digits of a number; zero has none. -/
def bitLength (n : Nat) : Nat := if n = 0 then 0 else n.log2 + 1

/-- The number of base-256 digits of a number; zero has none. -/
def byteLength (n : Nat) : Nat := (bitLength n + 7) / 8

/-- The number of bytes a number is written with when no width is asked for: its base-256 digits,
and one byte for zero. -/
def minimalWidth (n : Nat) : Nat := max 1 (byteLength n)

/-! ## Writing -/

/-- The lowest `width` base-256 digits of a number, most significant first, before other bytes. -/
def padOnto : (width : Nat) → (n : Nat) → (behind : List UInt8) → List UInt8
  | 0, _, behind => behind
  | width + 1, n, behind => padOnto width (n / 256) (UInt8.ofNat n :: behind)

/-- The lowest `width` base-256 digits of a number, most significant first. A number with fewer
digits gets zero bytes in front. -/
def padTo (width n : Nat) : List UInt8 := padOnto width n []

theorem padOnto_eq (width n : Nat) (behind : List UInt8) :
    padOnto width n behind = padTo width n ++ behind := by
  induction width generalizing n behind with
  | zero => rfl
  | succ width ih => rw [padTo, padOnto, padOnto, ih, ih _ [_], List.append_assoc]; rfl

@[simp] theorem padTo_zero (n : Nat) : padTo 0 n = [] := rfl

/-- The last digit is the remainder by 256. -/
theorem padTo_succ (width n : Nat) :
    padTo (width + 1) n = padTo width (n / 256) ++ [UInt8.ofNat n] := by
  rw [padTo, padOnto, padOnto_eq]

/-- A number without leading zero bytes; zero is a single zero byte. -/
def minimal (n : Nat) : List UInt8 := padTo (minimalWidth n) n

@[simp] theorem length_padTo (w n : Nat) : (padTo w n).length = w := by
  induction w generalizing n with
  | zero => rfl
  | succ w ih => simp [padTo_succ, ih]

@[simp] theorem length_minimal (n : Nat) : (minimal n).length = minimalWidth n := by
  simp [minimal]

/-- A number that needs more bytes than the width it was to be written in. -/
structure TooWide where
  /-- The least width that would do. -/
  needed : Nat
  /-- The width that was asked for. -/
  available : Nat
deriving DecidableEq, Repr

/-- The wording of the fault: both widths in bytes. -/
def TooWide.message (fault : TooWide) : String :=
  s!"value needs {fault.needed} bytes, buffer holds {fault.available}"

/-- A number written into exactly `width` bytes, with zero bytes in front as needed. Zero counts as
one byte here too, so nothing is written into a width of zero. -/
def toFixed (width n : Nat) : Except TooWide (List UInt8) :=
  if minimalWidth n ≤ width then .ok (padTo width n) else .error ⟨minimalWidth n, width⟩

end KeyAgreement.BigEndian
