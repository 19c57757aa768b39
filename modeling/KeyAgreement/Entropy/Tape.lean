import KeyAgreement.Entropy

/-!
# Recorded random bytes

A tape is a recorded sequence of bytes that is handed out in order. It is read once, and then a
request for more than is left fails and takes nothing, or it is read round and round, and then only
the empty tape fails.
-/

namespace KeyAgreement

/-- A recorded sequence of bytes, partly read. -/
structure Tape where
  /-- The bytes that come next. -/
  unread : List UInt8
  /-- The bytes that come when those are used up, over and over; none if the tape is read once. -/
  again : List UInt8
deriving DecidableEq, Repr

namespace Tape

/-- The tape that hands the bytes out once. -/
def once (bytes : List UInt8) : Tape := ⟨bytes, []⟩

/-- The tape that starts over at its end. -/
def looped (bytes : List UInt8) : Tape := ⟨bytes, bytes⟩

/-- The next `size` bytes and what is left to read after them. -/
def read (again : List UInt8) :
    (size : Nat) → (unread : List UInt8) → Option (List UInt8 × List UInt8)
  | 0, unread => some ([], unread)
  | size + 1, byte :: unread =>
    (read again size unread).map fun (bytes, rest) => (byte :: bytes, rest)
  | size + 1, [] =>
    match again with
    | [] => none
    | byte :: unread => (read again size unread).map fun (bytes, rest) => (byte :: bytes, rest)

theorem length_of_read {again : List UInt8} {size : Nat} {unread bytes rest : List UInt8}
    (h : read again size unread = some (bytes, rest)) : bytes.length = size := by
  fun_induction read again size unread generalizing bytes rest with
  | case1 => simp_all
  | case2 size byte unread ih =>
    obtain ⟨⟨bs, r⟩, read, eq⟩ := Option.map_eq_some_iff.1 h
    obtain ⟨rfl, rfl⟩ := Prod.mk.inj eq
    simp [ih read]
  | case3 => simp at h
  | case4 size byte unread looped ih =>
    subst looped
    obtain ⟨⟨bs, r⟩, read, eq⟩ := Option.map_eq_some_iff.1 h
    obtain ⟨rfl, rfl⟩ := Prod.mk.inj eq
    simp [ih read]

/-- The fault of a tape that has too little left. A tape numbers it and does not describe it. -/
def exhausted : EntropyFault := ⟨"Unknown Error: 3221225472"⟩

/-- Tapes as a source of random bytes. -/
def source : Entropy Tape where
  fill size tape :=
    match h : read tape.again size tape.unread with
    | some (bytes, rest) =>
      (.ok ⟨bytes.toArray, by simp [length_of_read h]⟩, { tape with unread := rest })
    | none => (.error exhausted, tape)

end Tape

end KeyAgreement
