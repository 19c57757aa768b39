import KeyAgreement.Fault

/-!
# The log

Operations do not write a log; they return the events of their course in order, and `Logged` pairs
them with the outcome. An event is a fact with the public numbers that belong to it. No event can
hold key material, since no constructor takes any: lengths, the size of a refused public value and a
fault are all there is.
-/

namespace KeyAgreement

/-- How much attention an event asks for. -/
inductive Level where
  | debug
  | warn
deriving DecidableEq, Repr

/-- What an operation reports about its course. -/
inductive Event where
  | parametersReady
  | startRefused (cause : Fault)
  | parametersReleased
  /-- A token held a character that is no base64 symbol. -/
  | charsetRefused
  /-- A peer's public value of so many binary digits was out of range. -/
  | peerRefused (bits : Nat)
  /-- A key pair was drawn; its public token has this many bytes. -/
  | keyPairGenerated (publicTokenLength : Nat)
  /-- A secret was derived from a common value of this many bytes. -/
  | secretDerived (sharedLength : Nat)
deriving DecidableEq, Repr

/-- The value of a field of an event. -/
inductive Event.Value where
  | number (value : Nat)
  | text (value : String)
deriving DecidableEq, Repr

namespace Event

/-- The level of an event: refusals are warnings. -/
def level : Event → Level
  | parametersReady | parametersReleased | keyPairGenerated _ | secretDerived _ => .debug
  | startRefused _ | charsetRefused | peerRefused _ => .warn

/-- The line that announces an event. -/
def message : Event → String
  | parametersReady => "dh1080 parameters initialized"
  | startRefused _ => "dh1080 initialize failed"
  | parametersReleased => "dh1080 parameters released"
  | charsetRefused => "dh1080 key token rejected: invalid charset"
  | peerRefused _ => "dh1080 peer public key rejected: out of range"
  | keyPairGenerated _ => "dh1080 key pair generated"
  | secretDerived _ => "dh1080 secret derived"

/-- The named values that go with the line. -/
def fields : Event → List (String × Value)
  | startRefused cause => [("error", .text cause.message)]
  | peerRefused bits => [("peer_bits", .number bits)]
  | keyPairGenerated length => [("public_token_len", .number length)]
  | secretDerived length => [("shared_len", .number length)]
  | parametersReady | parametersReleased | charsetRefused => []

end Event

/-- The name of a level as it stands in a log. -/
def Level.name : Level → String
  | .debug => "DEBUG"
  | .warn => "WARN"

/-- An outcome and the events of the course that led to it. -/
structure Logged (α : Type) where
  /-- What the operation came to. -/
  outcome : α
  /-- What was reported on the way, in order. -/
  events : List Event
deriving DecidableEq, Repr

namespace Logged

/-- An outcome that nothing was reported about. -/
def silent {α : Type} (outcome : α) : Logged α := ⟨outcome, []⟩

/-- The same course with another view of its outcome. -/
def map {α β : Type} (f : α → β) (l : Logged α) : Logged β := ⟨f l.outcome, l.events⟩

/-- One operation after another that may fail: a fault ends the course with what was reported so
far. -/
def andThen {ε α β : Type} (l : Logged (Except ε α)) (next : α → Logged (Except ε β)) :
    Logged (Except ε β) :=
  match l.outcome with
  | .error cause => ⟨.error cause, l.events⟩
  | .ok value => ⟨(next value).outcome, l.events ++ (next value).events⟩

@[simp] theorem outcome_silent {α : Type} (a : α) : (silent a).outcome = a := rfl

@[simp] theorem events_silent {α : Type} (a : α) : (silent a).events = [] := rfl

@[simp] theorem outcome_map {α β : Type} (f : α → β) (l : Logged α) :
    (l.map f).outcome = f l.outcome := rfl

@[simp] theorem events_map {α β : Type} (f : α → β) (l : Logged α) :
    (l.map f).events = l.events := rfl

end Logged

end KeyAgreement
