import Assuan.Protocol.State
import Assuan.Protocol.Streaming
import Assuan.Transport.Channel

/-!
# Client sessions (`session.rs`, `client.rs`, `transaction.rs`, `inquiry.rs`)

The methods of the client are actions on the session core. A read or write
raises `io_uncertain` before it starts and lowers it only when it has completed;
an error invalidates the session at once, while a dropped future leaves the flag
behind for the next `check`. A transaction and an inquiry are guards with their
own state beside the core.
-/

namespace Assuan

inductive ClientError : Type where
  | transport (error : TransportError)
  | protocol (error : ProtocolError)
  | state (error : StateError)
  | remote (code : UInt32)
  | greetingRejected (code : UInt32)
  | invalidOptions
  | incomplete
  | limit (error : LimitError)
deriving DecidableEq, Repr

/-- A half-open range of positions in the received line. -/
structure Span : Type where
  start : ℕ
  stop : ℕ
deriving DecidableEq, Repr

/-- `line[range]`. -/
def Span.slice (span : Span) (line : Bytes) : Option Bytes :=
  if span.start ≤ span.stop ∧ span.stop ≤ line.length then
    some ((line.take span.stop).drop span.start)
  else none

/-- What `classify` found in a line, by positions. -/
structure Received : Type where
  kind : LineKind
  code : Option UInt32
  payload : Span
  keyword : Span
deriving DecidableEq, Repr

/-- The commands sent and the final responses consumed, in their order. -/
inductive Exchange : Type where
  | command (command : Command)
  | final (code : Option UInt32)

/-- `horizon` tells for each deadline to be computed whether it overflows, and
`allocations` for each protected allocation whether it fails; both say no from
their end on. `log` records the commands whose line was given to the channel and
the final responses consumed; no operation reads it. The command timeout is an
option of the client. -/
structure SessionCore : Type where
  channel : Channel
  machine : ClientMachine
  ioUncertain : Bool
  sensitivity : Sensitivity
  commandTimeout : ℕ
  inquiryTimeout : ℕ
  maxInquiryBytes : ℕ
  horizon : List Bool
  allocations : List Bool
  log : List Exchange

namespace SessionCore

/-! ## §1  Guarded reads and writes -/

def invalidate (core : SessionCore) : SessionCore :=
  { core with machine := core.machine.invalidate, channel := core.channel.close }

def check : Action SessionCore ClientError Unit := fun core =>
  if core.ioUncertain ∨ core.machine.state = .invalid ∨ core.machine.state = .closed then
    (.err (.state .unusable), core.invalidate)
  else (.ok (), core)

/-- `if state != wanted`, with the same consequences wherever it occurs. -/
def requireState (wanted : ClientState) : Action SessionCore ClientError Unit := fun core =>
  if core.machine.state = wanted then (.ok (), core)
  else (.err (.state .notReady), core.invalidate)

/-- `IoGuard::begin`. -/
def beginIo : Action SessionCore ClientError Unit :=
  Action.modify fun core => { core with ioUncertain := true }

/-- `IoGuard::complete`. -/
def completeIo : Action SessionCore ClientError Unit :=
  Action.modify fun core => { core with ioUncertain := false }

def onChannel {α : Type} (x : Action Channel TransportError α) :
    Action SessionCore ClientError α :=
  Action.mapErr .transport (Action.zoom channel (fun core ch => { core with channel := ch }) x)

/-- The positions `classify` computes before it decodes anything. -/
def locate (line : Bytes) (parsed : ServerLine) : Received :=
  let suffix (text : Bytes) : Span := ⟨line.length - text.length, line.length⟩
  match parsed with
  | .ok text => ⟨.ok, none, suffix text, ⟨0, 0⟩⟩
  | .comment text => ⟨.comment, none, suffix text, ⟨0, 0⟩⟩
  | .data text => ⟨.data, none, suffix text, ⟨0, 0⟩⟩
  | .err code text => ⟨.err, some code, suffix text, ⟨0, 0⟩⟩
  | .status keyword args => ⟨.status, none, suffix args, ⟨2, 2 + (asBytes keyword).length⟩⟩
  | .inquire keyword args => ⟨.inquire, none, suffix args, ⟨8, 8 + (asBytes keyword).length⟩⟩
  | .end_ => ⟨.end_, none, ⟨0, 0⟩, ⟨0, 0⟩⟩
  | .empty => ⟨.empty, none, ⟨0, 0⟩, ⟨0, 0⟩⟩

/-- Data is decoded inside the receive buffer, and its range shrinks. -/
def decodePayload (line : Bytes) (received : Received) :
    Action SessionCore ClientError Received := fun core =>
  if received.kind = .data then
    let start := received.payload.start
    let (decoded, tail) := decodeDataInPlace (line.drop start)
    let core := { core with channel := core.channel.editLine (line.take start ++ tail) }
    match decoded with
    | .ok len => (.ok { received with payload := ⟨start, start + len⟩ }, core)
    | .err e => (.err (.protocol e), core)
    | .panic => (.panic, core)
    | .dropped => (.dropped, core)
  else (.ok received, core)

def receiveEvent (received : Received) : Action SessionCore ClientError Unit := fun core =>
  match core.machine.receive received.kind with
  | (.ok (), machine) => (.ok (), { core with machine := machine })
  | (.error .greetingRejected, machine) =>
      (.err (.greetingRejected (received.code.getD 0)), { core with machine := machine })
  | (.error e, machine) => (.err (.state e), { core with machine := machine })

def classify (line : Bytes) : Action SessionCore ClientError Received := do
  let parsed ← Action.lift ((parseServerLine line).mapErr .protocol)
  let received ← decodePayload line (locate line parsed)
  receiveEvent received
  pure received

/-- The record of a consumed final response. -/
def logFinal (received : Received) (core : SessionCore) : SessionCore :=
  if received.kind = .ok ∨ received.kind = .err then
    { core with log := core.log ++ [.final received.code] }
  else core

def read : Action SessionCore ClientError Received := do
  check
  beginIo
  let received ← Action.onError invalidate do
    let line ← onChannel Channel.readLine
    classify line
  completeIo
  Action.modify (logFinal received)
  pure received

def writeAt (bytes : Bytes) : Action SessionCore ClientError Unit := do
  check
  beginIo
  Action.onError invalidate (onChannel (Channel.writeLine bytes))
  completeIo

/-- `Instant::now().checked_add(duration)`. -/
def checkedInstant : Action SessionCore ClientError Unit := fun core =>
  (if core.horizon.headD false then .err .invalidOptions else .ok (),
    { core with horizon := core.horizon.tail })

/-- `deadline(duration)?`. -/
def deadline (duration : ℕ) : Action SessionCore ClientError Unit :=
  if duration = 0 then Action.throw .invalidOptions else checkedInstant

/-! ## §2  Commands -/

def isUsable (core : SessionCore) : Bool := !core.ioUncertain ∧ core.machine.state = .ready

/-- Responses already read ahead are checked in `Ready`. Each round consumes a
line. -/
def drain : ℕ → Action SessionCore ClientError Unit
  | 0 => Action.lift .panic
  | fuel + 1 => do
      let core ← Action.get
      if core.channel.hasBufferedInput then do
        let _ ← read
        drain fuel
      else pure ()

def beginCommand : Action SessionCore ClientError Unit := fun core =>
  (ofState .state core.machine.beginCommand.1, { core with machine := core.machine.beginCommand.2 })

/-- `command_with`, up to the construction of the transaction. -/
def commandWith (command : Command) (sensitivity : Sensitivity) :
    Action SessionCore ClientError Unit := do
  check
  requireState .ready
  let bytes ← Action.lift ((encoded (encodeCommand command)).mapErr .protocol)
  let core ← Action.get
  deadline core.commandTimeout
  drain (core.channel.supply + 1)
  Action.modify fun core => { core with sensitivity := sensitivity }
  beginCommand
  Action.modify fun core => { core with log := core.log ++ [.command command] }
  writeAt bytes

end SessionCore

/-! ## §3  Transactions -/

inductive Completion : Type where
  | pending
  | success
  | remote (code : UInt32)
deriving DecidableEq, Repr

/-- The guard of an inquiry. -/
structure Inquiry : Type where
  metadata : Bytes
  keywordLen : ℕ
  sent : ℕ
  completed : Bool
deriving DecidableEq, Repr

inductive Event : Type where
  | inquire (inquiry : Inquiry)
  | data (payload : PayloadRef)
  | status (keyword : String) (args : PayloadRef)
  | comment (payload : PayloadRef)
  | end_
  | finished (code : Option UInt32) (text : PayloadRef)
deriving DecidableEq, Repr

/-- The operations of a guard work on the core and on its own state. -/
def onCore {γ α : Type} (x : Action SessionCore ClientError α) :
    Action (SessionCore × γ) ClientError α :=
  Action.zoom Prod.fst (fun s core => (core, s.2)) x

namespace Transaction

/-- The loop of `next_event`, which skips empty lines. -/
def readEvent : ℕ → Action SessionCore ClientError Received
  | 0 => Action.lift .panic
  | fuel + 1 => do
      let received ← SessionCore.read
      if received.kind ≠ .empty then pure received else readEvent fuel

/-- `SecretBytes::with_capacity`. -/
def allocate : Action SessionCore ClientError Unit := fun core =>
  (if core.allocations.headD false then .err (.limit .allocationFailed) else .ok (),
    { core with allocations := core.allocations.tail })

/-- `extend_from_slice` on protected storage of 1000 bytes. -/
def extendFromSlice (stored bytes : Bytes) : Outcome ClientError Bytes :=
  match checkedAdd usizeMax stored.length bytes.length with
  | none => .err (.limit .lengthOverflow)
  | some length =>
      if length > maxLineBytes then .err (.limit .capacityExceeded) else .ok (stored ++ bytes)

/-- `Inquiry::new`. -/
def newInquiry (received : Received) : Action SessionCore ClientError Inquiry :=
  Action.onError SessionCore.invalidate do
    allocate
    let core ← Action.get
    let line ← Action.lift (Outcome.okOr .incomplete core.channel.receivedLine)
    let keyword ← Action.lift (Outcome.index (received.keyword.slice line))
    let metadata ← Action.lift (extendFromSlice [] keyword)
    let args ← Action.lift (Outcome.index (received.payload.slice line))
    let metadata ← Action.lift (extendFromSlice metadata args)
    SessionCore.checkedInstant
    pure ⟨metadata, keyword.length, 0, false⟩

/-- The `match` on the kind at the end of `next_event`. -/
def eventOf (received : Received) (line : Bytes) (payload : PayloadRef) :
    Outcome ClientError Event :=
  match received.kind with
  | .data => .ok (.data payload)
  | .comment => .ok (.comment payload)
  | .end_ => .ok .end_
  | .status => do
      let keyword ← Outcome.index (received.keyword.slice line)
      let keyword ← Outcome.okOr .incomplete (fromUtf8 keyword)
      .ok (.status keyword payload)
  | .ok => .ok (.finished received.code payload)
  | .err => .ok (.finished received.code payload)
  | .empty => .err .incomplete
  | .inquire => .err .incomplete

/-- `received.code.map_or(Success, Remote)` after a final response. -/
def completionOf (received : Received) (completion : Completion) : Completion :=
  if received.kind = .ok ∨ received.kind = .err then
    match received.code with
    | some code => .remote code
    | none => .success
  else completion

/-- The event of a received line other than an inquiry. -/
def plainEvent (received : Received) : Action SessionCore ClientError Event := do
  let core ← Action.get
  let line ← Action.lift (Outcome.okOr .incomplete core.channel.receivedLine)
  let payload ← Action.lift (Outcome.index (received.payload.slice line))
  Action.lift (eventOf received line (PayloadRef.new payload core.sensitivity))

def makeEvent (received : Received) : Action SessionCore ClientError Event :=
  if received.kind = .inquire then do
    let inquiry ← newInquiry received
    pure (.inquire inquiry)
  else plainEvent received

/-- `if state == Inquiry`: a forgotten inquiry. -/
def refuseInquiry : Action SessionCore ClientError Unit := fun core =>
  if core.machine.state = .inquiry then (.err (.state .notReady), core.invalidate) else (.ok (), core)

/-- The part of `next_event` that reads. -/
def readNext : Action (SessionCore × Completion) ClientError (Option Event) := do
  let s ← Action.get
  let received ← onCore (readEvent (s.1.channel.supply + 1))
  Action.modify fun s => (s.1, completionOf received s.2)
  let event ← onCore (makeEvent received)
  pure (some event)

/-- `next_event`. -/
def next : Action (SessionCore × Completion) ClientError (Option Event) := do
  onCore SessionCore.check
  onCore refuseInquiry
  let s ← Action.get
  if s.2 ≠ .pending then pure none else readNext

/-- `Drop` of a transaction. -/
def drop (core : SessionCore) : SessionCore :=
  if core.ioUncertain ∨ core.machine.state ≠ .ready then core.invalidate else core

/-- The result of a completed transaction. -/
def resultOf : Completion → Outcome ClientError Unit
  | .remote code => .err (.remote code)
  | .success => .ok ()
  | .pending => .err .incomplete

/-- `finish`, which consumes the transaction and so ends with its `Drop`. -/
def finish (completion : Completion) : Action SessionCore ClientError Unit := fun core =>
  let (o, core) := (do
    SessionCore.check
    Action.lift (resultOf completion) : Action SessionCore ClientError Unit) core
  (o, drop core)

end Transaction

/-! ## §4  Inquiries -/

namespace Inquiry

/-- `Inquiry::check`. -/
def check : Action SessionCore ClientError Unit := do
  SessionCore.check
  SessionCore.requireState .inquiry

/-- `checked_add` and `filter`: a call over the budget invalidates the session. -/
def charge (bytes : Bytes) : Action (SessionCore × Inquiry) ClientError ℕ := fun s =>
  match (checkedAdd usizeMax s.2.sent bytes.length).filter (· ≤ s.1.maxInquiryBytes) with
  | some total => (.ok total, s)
  | none => (.err (.limit .capacityExceeded), (s.1.invalidate, s.2))

/-- `send_data` and `send_secret`. -/
def send (bytes : Bytes) : Action (SessionCore × Inquiry) ClientError Unit := do
  onCore check
  let total ← charge bytes
  onCore (streamData SessionCore.writeAt .protocol (bytes.length + 1) bytes)
  Action.modify fun s => (s.1, { s.2 with sent := total })

def terminator (cancelled : Bool) : Bytes := asBytes (if cancelled then "CAN\n" else "END\n")

def finishInquiry (cancelled : Bool) : Action SessionCore ClientError Unit := fun core =>
  (ofState .state (core.machine.finishInquiry cancelled).1,
    { core with machine := (core.machine.finishInquiry cancelled).2 })

def complete (cancelled : Bool) : Action (SessionCore × Inquiry) ClientError Unit := do
  onCore check
  onCore (SessionCore.writeAt (terminator cancelled))
  onCore (finishInquiry cancelled)
  Action.modify fun s => (s.1, { s.2 with completed := true })

/-- `Drop` of an inquiry. -/
def drop (s : SessionCore × Inquiry) : SessionCore := if s.2.completed then s.1 else s.1.invalidate

/-- `finish` and `cancel`, which consume the inquiry. -/
def finish (cancelled : Bool) (inquiry : Inquiry) : Action SessionCore ClientError Unit := fun core =>
  ((complete cancelled (core, inquiry)).1, drop (complete cancelled (core, inquiry)).2)

/-- The keyword, from the guard's own copy. -/
def keyword (inquiry : Inquiry) : Outcome ClientError String := do
  let bytes ← Outcome.index ((⟨0, inquiry.keywordLen⟩ : Span).slice inquiry.metadata)
  .ok ((fromUtf8 bytes).getD "")

/-- The arguments, under the sensitivity of the enclosing operation. -/
def args (inquiry : Inquiry) (core : SessionCore) : Outcome ClientError PayloadRef := do
  let bytes ← Outcome.index
    ((⟨inquiry.keywordLen, inquiry.metadata.length⟩ : Span).slice inquiry.metadata)
  .ok (PayloadRef.new bytes core.sensitivity)

end Inquiry

end Assuan
