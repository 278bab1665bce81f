import Assuan.Protocol.Message

/-!
# Session machines (`assuan-protocol/src/state/`)

The pure transition rules of both ends. A call returns its result and the
machine afterwards; a rejected `receive`, `receive_request` or `send_response`
invalidates the machine, a rejected local request leaves it alone.
-/

namespace Assuan

inductive LineKind : Type where
  | ok
  | err
  | data
  | status
  | inquire
  | end_
  | comment
  | empty
deriving DecidableEq, Repr

inductive RequestKind : Type where
  | command
  | data
  | end_
  | can
  | comment
  | empty
deriving DecidableEq, Repr

inductive StateError : Type where
  | unexpectedEvent
  | notReady
  | unusable
  | greetingRejected
deriving DecidableEq, Repr

/-- A machine's answer as an outcome. -/
def ofState {ε : Type} (wrap : StateError → ε) : Except StateError Unit → Outcome ε Unit
  | .ok () => .ok ()
  | .error e => .err (wrap e)

def ServerLine.kind : ServerLine → LineKind
  | .ok _ => .ok
  | .err _ _ => .err
  | .data _ => .data
  | .status _ _ => .status
  | .inquire _ _ => .inquire
  | .end_ => .end_
  | .comment _ => .comment
  | .empty => .empty

/-! ## The client -/

inductive ClientState : Type where
  | greeting
  | ready
  | command
  | inquiry
  | awaitFinal
  | invalid
  | closed
deriving DecidableEq, Repr

structure ClientMachine : Type where
  state : ClientState
  inquiryOrigin : ClientState
deriving DecidableEq, Repr

namespace ClientMachine

def new : ClientMachine := ⟨.greeting, .greeting⟩

def invalidate (m : ClientMachine) : ClientMachine :=
  if m.state = .closed then m else { m with state := .invalid }

def close (m : ClientMachine) : ClientMachine := { m with state := .closed }

def beginCommand (m : ClientMachine) : Except StateError Unit × ClientMachine :=
  match m.state with
  | .ready => (.ok (), { m with state := .command })
  | .invalid | .closed => (.error .unusable, m)
  | _ => (.error .notReady, m)

def receive (m : ClientMachine) (event : LineKind) : Except StateError Unit × ClientMachine :=
  match m.state, event with
  | .invalid, _ | .closed, _ => (.error .unusable, m)
  | _, .comment | _, .empty => (.ok (), m)
  | .greeting, .status | .command, .status | .inquiry, .status | .awaitFinal, .status =>
      (.ok (), m)
  | .command, .data | .command, .end_ => (.ok (), m)
  | .greeting, .inquire | .command, .inquire =>
      (.ok (), { state := .inquiry, inquiryOrigin := m.state })
  | .greeting, .ok | .command, .ok | .command, .err => (.ok (), { m with state := .ready })
  | .greeting, .err => (.error .greetingRejected, m.invalidate)
  | .awaitFinal, .ok => (.ok (), { m with state := .ready })
  | .awaitFinal, .err =>
      if m.inquiryOrigin = .greeting then (.error .greetingRejected, m.invalidate)
      else (.ok (), { m with state := .ready })
  | _, _ => (.error .unexpectedEvent, m.invalidate)

def finishInquiry (m : ClientMachine) (cancelled : Bool) :
    Except StateError Unit × ClientMachine :=
  match m.state with
  | .invalid | .closed => (.error .unusable, m)
  | .inquiry =>
      (.ok (), { m with state := if cancelled then .awaitFinal else m.inquiryOrigin })
  | _ => (.error .notReady, m)

end ClientMachine

/-! ## The server -/

inductive ServerState : Type where
  | greeting
  | ready
  | handler
  | inquiry
  | awaitFinal
  | invalid
  | closed
deriving DecidableEq, Repr

structure ServerMachine : Type where
  state : ServerState
  inquiryOrigin : ServerState
deriving DecidableEq, Repr

namespace ServerMachine

def new : ServerMachine := ⟨.greeting, .greeting⟩

def invalidate (m : ServerMachine) : ServerMachine :=
  if m.state = .closed then m else { m with state := .invalid }

def close (m : ServerMachine) : ServerMachine := { m with state := .closed }

def receiveRequest (m : ServerMachine) (event : RequestKind) :
    Except StateError Unit × ServerMachine :=
  match m.state, event with
  | .invalid, _ | .closed, _ => (.error .unusable, m)
  | _, .comment | _, .empty => (.ok (), m)
  | .inquiry, .data => (.ok (), m)
  | .ready, .command => (.ok (), { m with state := .handler })
  | .inquiry, .end_ => (.ok (), { m with state := m.inquiryOrigin })
  | .inquiry, .can => (.ok (), { m with state := .awaitFinal })
  | _, _ => (.error .unexpectedEvent, m.invalidate)

def sendResponse (m : ServerMachine) (event : LineKind) :
    Except StateError Unit × ServerMachine :=
  match m.state, event with
  | .invalid, _ | .closed, _ => (.error .unusable, m)
  | _, .comment | _, .empty => (.ok (), m)
  | .greeting, .status | .handler, .status | .inquiry, .status | .awaitFinal, .status =>
      (.ok (), m)
  | .handler, .data | .handler, .end_ => (.ok (), m)
  | .greeting, .inquire | .handler, .inquire =>
      (.ok (), { state := .inquiry, inquiryOrigin := m.state })
  | .greeting, .ok | .handler, .ok | .handler, .err => (.ok (), { m with state := .ready })
  | .greeting, .err => (.ok (), m.invalidate)
  | .awaitFinal, .ok => (.ok (), { m with state := .ready })
  | .awaitFinal, .err =>
      if m.inquiryOrigin = .greeting then (.ok (), m.invalidate)
      else (.ok (), { m with state := .ready })
  | _, _ => (.error .unexpectedEvent, m.invalidate)

end ServerMachine

end Assuan
