import KeyAgreement.SelfTest
import KeyAgreement.Service

/-!
# Sessions

A session is a history of steps on one service, with handles kept under names. Every step has an
answer and may report events; a step that fails changes neither the service nor any handle. `run`
takes a whole history and is what statements about all histories are about.

Operations on keys go through a target, which is either the running service or a named handle. Both
lead to a group, and from there on they are the same.
-/

namespace KeyAgreement

/-- What an operation on keys goes through. -/
inductive Target where
  /-- The parameters that the service holds at the time. -/
  | service
  /-- The parameters of the handle of this name. -/
  | handle (name : String)
deriving DecidableEq, Repr

/-- One step of a session. -/
inductive Step where
  | start
  /-- Start the service, tell whether that succeeded, and report a refusal. -/
  | startReporting
  | stop
  | isRunning
  | derive (target : Target) (privateToken peerToken : String)
  | generate (target : Target)
  /-- Have two key pairs generated and exchanged. -/
  | exchange (target : Target)
  | decodePublic (target : Target) (token : String)
  /-- Take a handle on the parameters of the service and keep it under a name. -/
  | takeHandle (name : String)
  /-- Build parameters apart from the service and keep a handle on them under a name. -/
  | newHandle (name : String) (choice : ModpGroup.Choice)
  /-- Keep a copy of a handle under another name. -/
  | cloneHandle (kept name : String)
  /-- Ask whether two handles share their parameters, and whether these are equal. -/
  | compare (name other : String)
  | describe (name : String)
deriving DecidableEq, Repr

/-- The answer to a step. -/
inductive Answer where
  /-- The step was taken and there is nothing to tell. -/
  | done
  | truth (value : Bool)
  | secret (token : String)
  | publicValue (value : Nat)
  | keys (report : KeyReport)
  | exchange (report : ExchangeReport)
  /-- Whether two handles share their parameters, and whether these are equal. -/
  | sharing (shared equal : Bool)
  | group (group : ModpGroup)
  | fault (cause : Fault)
  | unknownHandle (name : String)
deriving DecidableEq

/-- An answer from an outcome that may be a fault. -/
def Answer.of {α : Type} (answer : α → Answer) : Except Fault α → Answer
  | .ok value => answer value
  | .error cause => .fault cause

/-- The state of a session that draws from a source with states in `σ`. -/
structure Session (σ : Type) where
  /-- The service that the session is held on. -/
  service : Service
  /-- The handles by name, the latest of a name first. -/
  handles : List (String × Handle)
  /-- The state of the source of random bytes. -/
  entropy : σ

namespace Session

variable {σ : Type}

/-- The session before its first step. -/
def fresh (entropy : σ) : Session σ := ⟨.fresh, [], entropy⟩

/-- The handle of a name, if one is kept under it. -/
def handle? (s : Session σ) (name : String) : Option Handle := s.handles.lookup name

/-- Keeps a handle under a name, in place of any handle of that name. -/
def keep (s : Session σ) (name : String) (handle : Handle) : Session σ :=
  { s with handles := (name, handle) :: s.handles }

/-- The group that a target leads to, or the answer of a step whose target leads nowhere. -/
def group (s : Session σ) : Target → Except Answer ModpGroup
  | .service =>
    match s.service.handle with
    | .ok handle => .ok handle.group
    | .error cause => .error (.fault cause)
  | .handle name =>
    match s.handle? name with
    | some handle => .ok handle.group
    | none => .error (.unknownHandle name)

/-- One step: its answer with the events on the way, and the session after it. Only generating and
exchanging keys draw from the source. -/
def step (source : Entropy σ) (s : Session σ) : Step → Logged Answer × Session σ
  | .start =>
    let (started, service) := s.service.start
    (started.map (.of fun _ => .done), { s with service })
  | .startReporting =>
    let (started, service) := s.service.startReporting
    (started.map .truth, { s with service })
  | .stop =>
    let (stopped, service) := s.service.stop
    (stopped.map fun _ => .done, { s with service })
  | .isRunning => (.silent (.truth s.service.isRunning), s)
  | .derive target privateToken peerToken =>
    match s.group target with
    | .error answer => (.silent answer, s)
    | .ok G => ((SharedSecret.derive G privateToken peerToken).map (.of .secret), s)
  | .generate target =>
    match s.group target with
    | .error answer => (.silent answer, s)
    | .ok G =>
      let (generated, entropy) := SelfTest.generate G source s.entropy
      (generated.map (.of .keys), { s with entropy })
  | .exchange target =>
    match s.group target with
    | .error answer => (.silent answer, s)
    | .ok G =>
      let (exchanged, entropy) := SelfTest.exchange G source s.entropy
      (exchanged.map (.of .exchange), { s with entropy })
  | .decodePublic target token =>
    match s.group target with
    | .error answer => (.silent answer, s)
    | .ok G => (.silent (.of .publicValue (PublicValue.decode G token)), s)
  | .takeHandle name =>
    match s.service.handle with
    | .error cause => (.silent (.fault cause), s)
    | .ok handle => (.silent .done, s.keep name handle)
  | .newHandle name choice =>
    match choice.group with
    | .error cause => (.silent (.fault (.group cause)), s)
    | .ok G =>
      let (handle, service) := s.service.build G
      (.silent .done, { s with service }.keep name handle)
  | .cloneHandle kept name =>
    match s.handle? kept with
    | none => (.silent (.unknownHandle kept), s)
    | some handle => (.silent .done, s.keep name handle)
  | .compare name other =>
    match s.handle? name, s.handle? other with
    | some h, some k => (.silent (.sharing (h.sharesWith k) (h.group == k.group)), s)
    | none, _ => (.silent (.unknownHandle name), s)
    | _, none => (.silent (.unknownHandle other), s)
  | .describe name =>
    match s.handle? name with
    | none => (.silent (.unknownHandle name), s)
    | some handle => (.silent (.group handle.group), s)

/-- A whole history: the answers in order, the events of all steps in order, and the session after
it. -/
def run (source : Entropy σ) (s : Session σ) : List Step → Logged (List Answer) × Session σ
  | [] => (.silent [], s)
  | first :: rest =>
    let (taken, s) := s.step source first
    let (others, s) := s.run source rest
    (⟨taken.outcome :: others.outcome, taken.events ++ others.events⟩, s)

end Session

end KeyAgreement
