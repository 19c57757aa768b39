import KeyAgreement.Event
import KeyAgreement.ModpGroup.Standard

/-!
# The service

A program that exchanges keys starts the service once and stops it at its end. In between the
service holds the parameters of the standard group, and whoever asks gets a handle on them.

Handles on the same parameters share them, and two sets of parameters that were built apart are two,
though they may be equal. So parameters carry the number of their construction, and a handle is its
parameters: a copy of a handle shares with it, all handles taken between one start and the next stop
share, and nothing that happens to the service changes a handle that was taken.
-/

namespace KeyAgreement

/-- Access to parameters that were built once. -/
structure Handle where
  /-- The number of the construction that built the parameters. -/
  origin : Nat
  /-- The group of the parameters. -/
  group : ModpGroup
deriving DecidableEq

/-- Whether two handles are on the same parameters. -/
def Handle.sharesWith (h k : Handle) : Bool := h.origin == k.origin

/-- The service: running when it holds parameters. -/
structure Service where
  /-- The parameters that the service holds. -/
  current : Option Handle
  /-- The number of parameters built so far, by the service or by others. -/
  built : Nat
deriving DecidableEq

namespace Service

/-- The service before its first start, when nothing was built. -/
def fresh : Service := ⟨none, 0⟩

/-- Builds parameters on a group, with the next number. -/
def build (s : Service) (G : ModpGroup) : Handle × Service :=
  (⟨s.built, G⟩, { s with built := s.built + 1 })

/-- Whether the service holds parameters. -/
def isRunning (s : Service) : Bool := s.current.isSome

/-- Starts the service. A running service stays as it is and refuses. -/
def start (s : Service) : Logged (Except Fault Unit) × Service :=
  match s.current with
  | some _ => (.silent (.error .alreadyRunning), s)
  | none =>
    let (parameters, s) := s.build .standard
    (⟨.ok (), [.parametersReady]⟩, { s with current := some parameters })

/-- Starts the service and tells whether that succeeded; a refusal is reported. -/
def startReporting (s : Service) : Logged Bool × Service :=
  let (started, s) := s.start
  match started.outcome with
  | .ok () => (⟨true, started.events⟩, s)
  | .error cause => (⟨false, started.events ++ [.startRefused cause]⟩, s)

/-- Stops the service. A service that is not running stays so, and nothing is reported. -/
def stop (s : Service) : Logged Unit × Service :=
  match s.current with
  | some _ => (⟨(), [.parametersReleased]⟩, { s with current := none })
  | none => (.silent (), s)

/-- A handle on the parameters of a running service. -/
def handle (s : Service) : Except Fault Handle :=
  match s.current with
  | some parameters => .ok parameters
  | none => .error .notRunning

end Service

end KeyAgreement
