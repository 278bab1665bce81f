import Assuan.Foundation.Action
import Assuan.Protocol.Frame

/-!
# The line channel (`assuan-transport/src/channel.rs`)

A channel owns a stream and three fixed buffers. What the stream does is data
of the model: a script of read and write outcomes, which may deliver any bytes
in any pieces, fail, run into the deadline, or leave the caller's future to be
dropped while it waits. The methods are actions on the channel, and
`Drop for Operation` is the clearing of everything that is not a success.
-/

namespace Assuan

inductive DiscoveryError : Type where
  | processFailed
  | unsupportedFormat
  | notFound
  | invalidOutput
  | outputLimit
deriving DecidableEq, Repr

inductive TransportError : Type where
  | closed
  | protocol (error : ProtocolError)
  | limit (error : LimitError)
  | io
  | timeout
  | invalidEndpoint
  | invalidOptions
  | accessPolicy
  | discovery (error : DiscoveryError)
deriving DecidableEq, Repr

/-! ## §1  The stream -/

/-- What `read(&mut ahead)` can fill in: between one byte and the whole buffer. -/
structure Chunk : Type where
  bytes : Bytes
  nonempty : bytes ≠ []
  fits : bytes.length ≤ maxLineBytes

/-- How a wait for input ends. -/
inductive ReadStep : Type where
  | data (chunk : Chunk)
  | eof
  | failed
  | expired
  | dropped

/-- How `write_all` and `flush` of one line end, and how many bytes of it the
transport has accepted by then. -/
inductive WriteStep : Type where
  | done
  | failed (accepted : ℕ)
  | expired (accepted : ℕ)
  | dropped (accepted : ℕ)

/-- The future of a stream. Beyond the end of a script reads meet the end of the
stream and writes succeed. -/
structure Stream : Type where
  reads : List ReadStep
  writes : List WriteStep

/-- What has passed through a stream: the result of each read and the bytes
accepted by each write. -/
inductive Io : Type where
  | read (bytes : Bytes)
  | wrote (bytes : Bytes)
deriving DecidableEq, Repr

/-! ## §2  The channel -/

/-- `clock` answers the tests `deadline <= Instant::now()` in turn, `false` from
its end on. `trace` records the traffic; the source has no such field, and no
operation depends on it. -/
structure Channel : Type where
  stream : Option Stream
  line : LineBuffer
  ahead : LineArray
  pending : ℕ
  write : LineArray
  clock : List Bool
  trace : List Io

namespace Channel

def new (stream : Stream) (clock : List Bool) : Channel where
  stream := some stream
  line := .new
  ahead := Buffer.zero _
  pending := 0
  write := Buffer.zero _
  clock := clock
  trace := []

def hasBufferedInput (ch : Channel) : Bool := ch.pending ≠ 0

def receivedLine (ch : Channel) : Option Bytes := ch.line.line

def clear (ch : Channel) : Channel :=
  { ch with line := ch.line.clear, ahead := Buffer.zero _, write := Buffer.zero _, pending := 0 }

def close (ch : Channel) : Channel := { ch.clear with stream := none }

/-- `if deadline <= Instant::now()`: the next answer of the clock. -/
def checkDeadline : Action Channel TransportError Unit := fun ch =>
  (if ch.clock.headD false then .err .timeout else .ok (), { ch with clock := ch.clock.tail })

/-! ### Reading -/

/-- `ahead.copy_within(consumed..pending, 0)` and the wiping of what is left
behind. -/
def shiftAhead (ch : Channel) (consumed : ℕ) : Option Channel :=
  (ch.ahead.copyWithin consumed ch.pending).bind fun ahead =>
    (ahead.zeroizeFrom (ch.pending - consumed)).map fun ahead =>
      { ch with ahead := ahead, pending := ch.pending - consumed }

/-- The first half of a round of `receive`: feed what is buffered. The value
says whether a line is complete. -/
def feedPending (ch : Channel) : Outcome TransportError Bool × Channel :=
  if ch.pending ≠ 0 then
    match ch.ahead.slice 0 ch.pending with
    | none => (.panic, ch)
    | some buffered =>
        match ch.line.feed buffered with
        | (.ok consumed, line) =>
            match { ch with line := line }.shiftAhead consumed with
            | none => (.panic, { ch with line := line })
            | some ch => (.ok ch.line.line.isSome, ch)
        | (.err e, line) => (.err (.protocol e), { ch with line := line })
        | (.panic, line) => (.panic, { ch with line := line })
        | (.dropped, line) => (.dropped, { ch with line := line })
  else (.ok false, ch)

/-- `finish_eof` after a read that returned zero bytes. -/
def finishRead (ch : Channel) : Outcome TransportError Unit × Channel :=
  (ch.line.finishEof.mapErr .protocol, ch)

/-- A read that has returned: the remaining script and the traffic. -/
def afterRead (ch : Channel) (writes : List WriteStep) (rest : List ReadStep) (bytes : Bytes) :
    Channel :=
  { ch with stream := some ⟨rest, writes⟩, trace := ch.trace ++ [.read bytes] }

/-- The `loop` of `receive` on an open stream. Each round but the first takes one
step of the read script. -/
def receiveLoop (writes : List WriteStep) :
    List ReadStep → Channel → Outcome TransportError Unit × Channel
  | reads, ch =>
      match ch.feedPending with
      | (.ok true, ch) => (.ok (), ch)
      | (.ok false, ch) =>
          match reads with
          | [] => (ch.afterRead writes [] []).finishRead
          | .eof :: rest => (ch.afterRead writes rest []).finishRead
          | .failed :: rest => (.err .io, ch.afterRead writes rest [])
          | .expired :: rest => (.err .timeout, ch.afterRead writes rest [])
          | .dropped :: rest => (.dropped, ch.afterRead writes rest [])
          | .data chunk :: rest =>
              match ch.ahead.copyAt 0 chunk.bytes with
              | none => (.panic, ch)
              | some ahead =>
                  receiveLoop writes rest
                    { ch.afterRead writes rest chunk.bytes with
                      ahead := ahead, pending := chunk.bytes.length }
      | (.err e, ch) => (.err e, ch)
      | (.panic, ch) => (.panic, ch)
      | (.dropped, ch) => (.dropped, ch)

def receive : Action Channel TransportError Unit := fun ch =>
  match ch.stream with
  | none => (.err .closed, ch)
  | some stream => receiveLoop stream.writes stream.reads ch

/-- The value is `line_mut()`: the line, or `None` at the end of the stream. -/
def readLineOrEof : Action Channel TransportError (Option Bytes) := do
  Action.onFailure clear do
    Action.modify fun ch => { ch with line := ch.line.clear }
    checkDeadline
    receive
  let ch ← Action.get
  pure ch.line.line

def readLine : Action Channel TransportError Bytes := do
  let line ← readLineOrEof
  Action.lift (Outcome.okOr (.protocol .unexpectedEof) line)

/-- What the holder of the returned `&mut [u8]` may do to it. -/
def editLine (ch : Channel) (content : Bytes) : Channel :=
  { ch with line := ch.line.editLine content }

/-! ### What is left to read -/

/-- The bytes a script has left to deliver. -/
def volume : List ReadStep → ℕ
  | [] => 0
  | .data chunk :: rest => chunk.bytes.length + volume rest
  | _ :: rest => volume rest

/-- The bytes of the read-ahead buffer that no line has taken. -/
def unreadBytes (ch : Channel) : Bytes := ch.ahead.bytes.take ch.pending

/-- The bytes that reads can still return: a bound for loops that read lines. -/
def supply (ch : Channel) : ℕ :=
  ch.unreadBytes.length + match ch.stream with
    | some stream => volume stream.reads
    | none => 0

/-! ### Writing -/

/-- `body.strip_suffix(b"\r").unwrap_or(body)`. -/
def stripCr (body : Bytes) : Bytes := if body.getLast? = some cr then body.dropLast else body

/-- The checks of `write_line` on the line itself. -/
def validateWireLine (bytes : Bytes) : Outcome TransportError Unit :=
  if bytes.length > maxLineBytes then .err (.protocol .lineTooLong)
  else if bytes.getLast? ≠ some lf then .err (.protocol .invalidLine)
  else if (stripCr bytes.dropLast).any isForbidden then .err (.protocol .invalidLine)
  else .ok ()

/-- `write_all` and `flush` under the deadline, and the wiping of the buffer. -/
def transmit (stream : Stream) (bytes : Bytes) : Action Channel TransportError Unit := fun ch =>
  let sent (accepted : ℕ) : Channel :=
    { ch with stream := some ⟨stream.reads, stream.writes.tail⟩
              trace := ch.trace ++ [.wrote (bytes.take accepted)] }
  match stream.writes.headD .done with
  | .done => (.ok (), { sent bytes.length with write := Buffer.zero _ })
  | .failed accepted => (.err .io, sent accepted)
  | .expired accepted => (.err .timeout, sent accepted)
  | .dropped accepted => (.dropped, sent accepted)

def writeLine (bytes : Bytes) : Action Channel TransportError Unit :=
  Action.onFailure clear do
    Action.lift (validateWireLine bytes)
    checkDeadline
    let ch ← Action.get
    let stream ← Action.lift (Outcome.okOr .closed ch.stream)
    let write ← Action.lift (Outcome.index (ch.write.copyAt 0 bytes))
    Action.modify fun ch => { ch with write := write }
    let line ← Action.lift (Outcome.index (write.slice 0 bytes.length))
    transmit stream line

end Channel

end Assuan
