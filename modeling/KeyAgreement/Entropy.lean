import KeyAgreement.Fault

/-!
# Sources of random bytes

A source serves a request for a number of bytes in full or not at all. It is given by what it does
to a state, so that one and the same program can draw from the system, from a recorded sequence, or
from anything else, and so that what was drawn can be told afterwards. `accounted` adds an account
of the requests to any source without changing what it serves.
-/

namespace KeyAgreement

/-- A source of random bytes with states in `σ`. -/
structure Entropy (σ : Type) where
  /-- Serves a request for `size` bytes, or reports a fault; either way the state moves on. -/
  fill : (size : Nat) → σ → Except EntropyFault (Vector UInt8 size) × σ

/-- A way to keep an account of the requests to a source with states in `σ`. The account has the
state of the source in it, and entering a request does not change what the source does. -/
structure Account (σ ρ : Type) where
  /-- The state of the source itself. -/
  inner : ρ → σ
  /-- Enters a request: the state of the source after it, its size, and whether it was served. -/
  enter : ρ → σ → (size : Nat) → (served : Bool) → ρ
  inner_enter : ∀ account after size served, inner (enter account after size served) = after := by
    intros; rfl

/-- A state together with the readings of a meter. -/
structure Metered (σ : Type) where
  /-- The state of the source itself. -/
  inner : σ
  /-- The number of requests, those that failed included. -/
  fills : Nat := 0
  /-- The number of bytes served. -/
  used : Nat := 0
deriving DecidableEq, Repr

/-- The account of a meter. -/
def Metered.account (σ : Type) : Account σ (Metered σ) where
  inner := Metered.inner
  enter meter after size served :=
    ⟨after, meter.fills + 1, if served then meter.used + size else meter.used⟩

namespace Entropy

variable {σ ρ : Type}

/-- The same source with an account of the requests. -/
def accounted (source : Entropy σ) (A : Account σ ρ) : Entropy ρ where
  fill size account :=
    let answer := source.fill size (A.inner account)
    (answer.1, A.enter account answer.2 size answer.1.isOk)

/-- The same source with a meter. -/
def metered (source : Entropy σ) : Entropy (Metered σ) := source.accounted (Metered.account σ)

end Entropy

end KeyAgreement
