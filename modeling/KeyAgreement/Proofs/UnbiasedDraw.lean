import KeyAgreement.Proofs.Drawing
import KeyAgreement.Proofs.SafePrime
import KeyAgreement.Proofs.SampleCount
import Mathlib.Data.FinEnum
import Mathlib.Data.Set.Finite.List

/-!
# No exponent is favoured

A tape that is read once serves its bytes in pieces of the width of a key, so the tapes from which
an exponent is drawn with the last of `n + 1` pieces are put together freely: `n` pieces over which
the scan stays pending, and one piece whose sample is the exponent. The first part does not depend
on the exponent, and the second has equally many choices for all exponents.
-/

namespace KeyAgreement

/-! ## Tapes read once -/

namespace Tape

theorem read_once {size : ℕ} {unread : List UInt8} (h : size ≤ unread.length) :
    read [] size unread = some (unread.take size, unread.drop size) := by
  induction size generalizing unread with
  | zero => rw [read, List.take_zero, List.drop_zero]
  | succ size ih =>
    cases unread with
    | nil => exact absurd h (Nat.not_succ_le_zero size)
    | cons byte unread =>
      rw [read, ih (Nat.le_of_succ_le_succ h)]
      rfl

/-- A request that the rest of a tape can serve takes the first bytes off. -/
theorem fill_once {size : ℕ} {unread : List UInt8} (h : size ≤ unread.length) :
    (source.fill size (once unread)).1.map Vector.toList = .ok (unread.take size) ∧
      (source.fill size (once unread)).2 = once (unread.drop size) := by
  simp only [source, once]
  split
  next bytes rest hread =>
    rw [read_once h] at hread
    obtain ⟨rfl, rfl⟩ := Prod.mk.inj (Option.some.inj hread)
    exact ⟨rfl, rfl⟩
  next hread =>
    rw [read_once h] at hread
    cases hread

end Tape

variable {G : ModpGroup} {i n x : ℕ} {bytes front last : List UInt8}

theorem ModpGroup.lt_two_pow_bits (hx : G.IsExponent x) : x < 2 ^ G.bits :=
  (KeyPair.lt_of_isExponent hx).trans G.modulus_lt_two_pow

namespace KeyPair

theorem stateAfter_once (h : i * G.byteLength ≤ bytes.length) :
    stateAfter G Tape.source (.once bytes) i = .once (bytes.drop (i * G.byteLength)) := by
  induction i with
  | zero => rw [stateAfter, Nat.zero_mul, List.drop_zero]
  | succ i ih =>
    rw [Nat.succ_mul] at h ⊢
    have hrest : G.byteLength ≤ (bytes.drop (i * G.byteLength)).length := by
      rw [List.length_drop]
      omega
    rw [stateAfter, ih (by omega), (Tape.fill_once hrest).2, List.drop_drop]

/-- The `i`-th sample of a tape is its `i`-th piece of the width of a key. -/
theorem samples_once (h : (i + 1) * G.byteLength ≤ bytes.length) :
    samples G Tape.source (.once bytes) i
      = .ok (G.sample ((bytes.drop (i * G.byteLength)).take G.byteLength)) := by
  rw [Nat.succ_mul] at h
  have hrest : G.byteLength ≤ (bytes.drop (i * G.byteLength)).length := by
    rw [List.length_drop]
    omega
  have hfill := (Tape.fill_once hrest).1
  rw [samples, stateAfter_once (by omega)]
  cases hserved : (Tape.source.fill G.byteLength (.once (bytes.drop (i * G.byteLength)))).1 with
  | error cause =>
    rw [hserved] at hfill
    cases hfill
  | ok buffer =>
    rw [hserved] at hfill
    exact congrArg (fun b => Except.ok (G.sample b)) (Except.ok.inj hfill)

/-- Bytes behind the first `n` pieces do not change their samples. -/
theorem samples_once_append (hfront : front.length = n * G.byteLength) (hi : i < n) :
    samples G Tape.source (.once (front ++ last)) i = samples G Tape.source (.once front) i := by
  have hle : (i + 1) * G.byteLength ≤ front.length :=
    hfront ▸ Nat.mul_le_mul_right _ hi
  have hle' : (i + 1) * G.byteLength ≤ (front ++ last).length := by
    rw [List.length_append]
    omega
  rw [samples_once hle', samples_once hle]
  rw [Nat.succ_mul] at hle
  rw [List.drop_append_of_le_length (by omega), List.take_append_of_le_length]
  rw [List.length_drop]
  omega

theorem samples_once_last (hfront : front.length = n * G.byteLength)
    (hlast : last.length = G.byteLength) :
    samples G Tape.source (.once (front ++ last)) n = .ok (G.sample last) := by
  have hle : (n + 1) * G.byteLength ≤ (front ++ last).length := by
    rw [List.length_append, hfront, hlast, Nat.succ_mul]
  rw [samples_once hle, ← hfront, List.drop_left, ← hlast, List.take_length]

/-! ## Tapes for an exponent -/

/-- The tapes of `n` pieces over which the scan stays pending. -/
def pendingTapes (G : ModpGroup) (n : ℕ) : Set (List UInt8) :=
  {bytes | bytes.length = n * G.byteLength ∧
    Pending G (samples G Tape.source (.once bytes)) n}

/-- The tapes of `n` pieces from which the exponent `x` is drawn with the last of them. -/
def tapesFor (G : ModpGroup) (n x : ℕ) : Set (List UInt8) :=
  {bytes | bytes.length = n * G.byteLength ∧ EndsAfter G Tape.source (.once bytes) n (.ok x)}

theorem finite_tapesFor (G : ModpGroup) (n x : ℕ) : (tapesFor G n x).Finite :=
  (List.finite_length_eq UInt8 (n * G.byteLength)).subset fun _ h => h.1

/-- Nothing is drawn before the first request. -/
theorem tapesFor_zero (G : ModpGroup) (x : ℕ) : tapesFor G 0 x = ∅ := by
  refine Set.eq_empty_iff_forall_notMem.2 ?_
  rintro bytes ⟨-, hend⟩
  obtain ⟨m, -, -, -, -, hrun⟩ := exists_draw_recorded G Tape.source (.once bytes)
  have hlen := hend.2
  rw [hrun, List.length_replicate] at hlen
  exact absurd hlen (Nat.succ_ne_zero m)

/-- A tape for a usable exponent is a tape over which the scan stays pending, followed by a buffer
whose sample is the exponent. -/
theorem tapesFor_succ (hx : G.IsUsable x) (n : ℕ) :
    tapesFor G (n + 1) x
      = (fun tape : List UInt8 × List UInt8 => tape.1 ++ tape.2) ''
          (pendingTapes G n ×ˢ G.buffersOf x) := by
  ext bytes
  constructor
  · rintro ⟨hlen, hend⟩
    obtain ⟨hstop, hpending⟩ := endsAfter_succ_iff.1 hend
    obtain ⟨hsample, -⟩ := stopsAt_ok_iff.1 hstop
    rw [Nat.succ_mul] at hlen
    have hfront : (bytes.take (n * G.byteLength)).length = n * G.byteLength := by
      rw [List.length_take]
      omega
    have hlast : (bytes.drop (n * G.byteLength)).length = G.byteLength := by
      rw [List.length_drop]
      omega
    have hjoin := List.take_append_drop (n * G.byteLength) bytes
    rw [← hjoin] at hpending hsample
    rw [samples_once_last hfront hlast] at hsample
    refine ⟨(_, _), ⟨⟨hfront, ?_⟩, hlast, Except.ok.inj hsample⟩, hjoin⟩
    exact hpending.congr fun i hi => samples_once_append hfront hi
  · rintro ⟨⟨front, last⟩, ⟨⟨hfront, hpending⟩, hlast, rfl⟩, rfl⟩
    refine ⟨?_, endsAfter_succ_iff.2 ⟨stopsAt_ok_iff.2 ⟨samples_once_last hfront hlast, hx⟩, ?_⟩⟩
    · rw [List.length_append, hfront, hlast, Nat.succ_mul]
    · exact hpending.congr fun i hi => (samples_once_append hfront hi).symm

theorem ncard_tapesFor_succ (hx : G.IsUsable x) (n : ℕ) :
    (tapesFor G (n + 1) x).ncard = (pendingTapes G n).ncard * 2 ^ G.excessBits := by
  have hinj : Set.InjOn (fun tape : List UInt8 × List UInt8 => tape.1 ++ tape.2)
      (pendingTapes G n ×ˢ G.buffersOf x) := by
    rintro ⟨front, last⟩ ⟨hfront, -⟩ ⟨front', last'⟩ ⟨hfront', -⟩ heq
    obtain ⟨hf, hl⟩ := List.append_inj heq (hfront.1.trans hfront'.1.symm)
    exact Prod.ext hf hl
  rw [tapesFor_succ hx, hinj.ncard_image, Set.ncard_prod,
    ModpGroup.ncard_buffersOf (ModpGroup.lt_two_pow_bits hx.1)]

/-- Drawing favours no exponent: any two usable exponents are drawn with the last of `n` pieces from
equally many tapes of `n` pieces. -/
theorem ncard_tapesFor_eq {u v : ℕ} (hu : G.IsUsable u) (hv : G.IsUsable v) (n : ℕ) :
    (tapesFor G n u).Finite ∧ (tapesFor G n v).Finite ∧
      (tapesFor G n u).ncard = (tapesFor G n v).ncard := by
  refine ⟨finite_tapesFor .., finite_tapesFor .., ?_⟩
  cases n with
  | zero => rw [tapesFor_zero, tapesFor_zero]
  | succ n => rw [ncard_tapesFor_succ hu, ncard_tapesFor_succ hv]

/-- Modulo 23 the exponents 6 and 7 are drawn from equally many tapes of three pieces, one of which
is the tape that has a miss and a wasted exponent in front of the 6. -/
theorem ncard_tapesFor_mod23 :
    ModpGroup.mod23.IsUsable 6 ∧ ModpGroup.mod23.IsUsable 7 ∧ [255, 11, 6] ∈ tapesFor .mod23 3 6 ∧
      (tapesFor .mod23 3 6).ncard = (tapesFor .mod23 3 7).ncard := by
  have hu : ModpGroup.mod23.IsUsable 6 := by decide
  have hv : ModpGroup.mod23.IsUsable 7 := by decide
  have hmem : [255, 11, 6] ∈ tapesFor .mod23 3 6 := ⟨by decide, by decide, by decide⟩
  exact ⟨hu, hv, hmem, (ncard_tapesFor_eq hu hv 3).2.2⟩

end KeyPair

end KeyAgreement
