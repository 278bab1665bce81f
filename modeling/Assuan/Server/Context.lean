import Assuan.Protocol.Streaming
import Assuan.Server.Registry
import Assuan.Transport.Channel

/-!
# The command context (`context.rs`, `inquiry.rs`, `builtins.rs`)

What a callback can do to its session: send status and data lines, and open an
inquiry, which it then holds as an exclusive guard. Each operation runs under an
`IoOperation`, whose `Drop` invalidates the machine and closes the channel
unless the operation has completed.
-/

namespace Assuan

inductive HandlerError : Type where
  | remote (code : UInt32) (message : String)
  | internal
  | transport (error : TransportError)
  | protocol (error : ProtocolError)
  | state (error : StateError)
  | limit (error : LimitError)
deriving DecidableEq, Repr

/-! ## §1  The channel and the machine -/

/-- The part of a session that a context borrows. -/
structure Link : Type where
  channel : Channel
  machine : ServerMachine

namespace Link

/-- `Drop` of an operation that has not completed, and of an unfinished
inquiry. -/
def abandon (link : Link) : Link := ⟨link.channel.close, link.machine.invalidate⟩

def ioOperation {α : Type} (x : Action Link HandlerError α) : Action Link HandlerError α :=
  Action.onFailure abandon x

def sendResponse (kind : LineKind) : Action Link HandlerError Unit := fun link =>
  (ofState .state (link.machine.sendResponse kind).1,
    { link with machine := (link.machine.sendResponse kind).2 })

def receiveRequest (kind : RequestKind) : Action Link HandlerError Unit := fun link =>
  (ofState .state (link.machine.receiveRequest kind).1,
    { link with machine := (link.machine.receiveRequest kind).2 })

/-- The machine agrees or refuses; either way it is the one that the step left. -/
theorem sendResponse_cases (link : Link) (kind : LineKind) :
    ((link.machine.sendResponse kind).1 = .ok () ∧ sendResponse kind link =
      (.ok (), { link with machine := (link.machine.sendResponse kind).2 })) ∨
    ∃ e, sendResponse kind link =
      (.err (.state e), { link with machine := (link.machine.sendResponse kind).2 }) := by
  unfold sendResponse
  cases h : (link.machine.sendResponse kind).1 with
  | ok u => exact Or.inl ⟨rfl, rfl⟩
  | error e => exact Or.inr ⟨e, rfl⟩

theorem receiveRequest_cases (link : Link) (kind : RequestKind) :
    ((link.machine.receiveRequest kind).1 = .ok () ∧ receiveRequest kind link =
      (.ok (), { link with machine := (link.machine.receiveRequest kind).2 })) ∨
    ∃ e, receiveRequest kind link =
      (.err (.state e), { link with machine := (link.machine.receiveRequest kind).2 }) := by
  unfold receiveRequest
  cases h : (link.machine.receiveRequest kind).1 with
  | ok u => exact Or.inl ⟨rfl, rfl⟩
  | error e => exact Or.inr ⟨e, rfl⟩

def onChannel {α : Type} (x : Action Channel TransportError α) : Action Link HandlerError α :=
  Action.mapErr .transport (Action.zoom channel (fun link ch => { link with channel := ch }) x)

def writeLine (bytes : Bytes) : Action Link HandlerError Unit := onChannel (Channel.writeLine bytes)

def readLine : Action Link HandlerError Bytes := onChannel Channel.readLine

/-- Encode, ask the machine, write: the body of every operation that sends one
line. -/
def sendLine (line : ServerLine) : Action Link HandlerError Unit := do
  let bytes ← Action.lift ((encoded (encodeResponse line)).mapErr .protocol)
  sendResponse line.kind
  writeLine bytes

/-! ## §2  Status and data -/

def sendStatus (keyword : String) (args : Bytes) : Action Link HandlerError Unit :=
  ioOperation (sendLine (.status keyword args))

def sendData (data : Bytes) : Action Link HandlerError Unit :=
  ioOperation do
    sendResponse .data
    streamData writeLine .protocol (data.length + 1) data

/-! ## §3  HELP -/

/-- `COMMANDS`. -/
def commands : List (String × String) :=
  [("NOP", "No operation"), ("BYE", "Close this connection"), ("HELP", "List commands"),
    ("RESET", "Reset transient session state"), ("OPTION", "Set a session option")]

/-- The comment payload: a space and the text, in an array of 1000 bytes. -/
def commentBody (text : Bytes) : Option Bytes := do
  let body ← (Buffer.zero maxLineBytes).set 0 space
  let body ← body.copyAt 1 text
  body.slice 0 (text.length + 1)

def comment (text : Bytes) : Action Link HandlerError Unit :=
  ioOperation do
    let body ← Action.lift (Outcome.index (commentBody text))
    sendLine (.comment body)

/-- `comment(context, &buffer[..len])`. -/
def flush (buffer : LineArray) (len : ℕ) : Action Link HandlerError Unit := do
  let text ← Action.lift (Outcome.index (buffer.slice 0 len))
  comment text

/-- Before a character that does not fit, the line goes out and the buffer is used
anew. The value is the length of the text collected so far. -/
def makeRoom (ch : Bytes) (buffer : LineArray) (len : ℕ) : Action Link HandlerError ℕ :=
  if len + ch.length > maxLineBytes - 3 then do
    flush buffer len
    pure 0
  else pure len

/-- The loop over the characters of an entry, each given by its encoding.
`encode_utf8` writes into what is left of the buffer. -/
def packLoop : List Bytes → LineArray → ℕ → Action Link HandlerError Unit
  | [], buffer, len => if len ≠ 0 then flush buffer len else pure ()
  | ch :: chars, buffer, len => do
      let len ← makeRoom ch buffer len
      let buffer ← Action.lift (Outcome.index (buffer.copyAt len ch))
      packLoop chars buffer (len + ch.length)

def encodeUtf8 (text : String) : List Bytes := text.toList.map fun ch => asBytes (String.singleton ch)

def entry (name description : String) : Action Link HandlerError Unit := do
  let _ ← Action.lift ((Command.new name (asBytes description)).mapErr .protocol)
  packLoop (encodeUtf8 name ++ encodeUtf8 " " ++ encodeUtf8 description) (Buffer.zero _) 0

/-- The built-in entries, then the registered ones in the order given. -/
def help (entries : List (String × String)) : Action Link HandlerError Unit :=
  Action.forEach (fun e => entry e.1 e.2) (commands ++ entries)

end Link

/-! ## §4  Inquiries -/

inductive InquiryOutcome : Type where
  | completed
  | cancelled
deriving DecidableEq, Repr

/-- The request that an outcome stands for. -/
def InquiryOutcome.request : InquiryOutcome → RequestKind
  | .completed => .end_
  | .cancelled => .can

structure ServerInquiry : Type where
  link : Link
  sensitivity : Sensitivity
  limit : ℕ
  received : ℕ
  outcome : Option InquiryOutcome

namespace ServerInquiry

/-- `ServerInquiry::begin`, up to the construction of the guard. -/
def begin (keyword : String) (args : Bytes) : Action Link HandlerError Unit :=
  Link.ioOperation (Link.sendLine (.inquire keyword args))

/-- The guard that `begin` returns. -/
def new (link : Link) (sensitivity : Sensitivity) (limit : ℕ) : ServerInquiry :=
  ⟨link, sensitivity, limit, 0, none⟩

def onLink {α : Type} (x : Action Link HandlerError α) : Action ServerInquiry HandlerError α :=
  Action.zoom link (fun inquiry link => { inquiry with link := link }) x

/-- `Drop` of the guard, and of the operation inside `next`. -/
def abandon (inquiry : ServerInquiry) : ServerInquiry :=
  { inquiry with link := inquiry.link.abandon }

/-- The `loop` of `next`: lines are read until one is data or a terminator. Each
round takes a line from the channel, so its supply bounds the rounds. -/
def nextLine : ℕ → Action Link HandlerError (RequestKind × Bytes)
  | 0 => Action.lift .panic
  | fuel + 1 => do
      let line ← Link.readLine
      let kind ← Action.lift ((requestKind line).mapErr .protocol)
      if kind = .end_ ∨ kind = .can then pure (kind, line)
      else do
        Link.receiveRequest kind
        if kind = .data then pure (kind, line) else nextLine fuel

/-- `decode_data_in_place(&mut line[2..])`: the line is decoded inside the
receive buffer. -/
def decodeLine (line : Bytes) : Action Link HandlerError ℕ := fun link =>
  if 2 ≤ line.length then
    ((decodeDataInPlace (line.drop 2)).1.mapErr .protocol,
      { link with channel :=
          link.channel.editLine (line.take 2 ++ (decodeDataInPlace (line.drop 2)).2) })
  else (.panic, link)

/-- `checked_add` and `filter`. -/
def chargeLimit (len : ℕ) (inquiry : ServerInquiry) : Option ℕ :=
  (checkedAdd usizeMax inquiry.received len).filter (· ≤ inquiry.limit)

/-- What `next` does with a line: `None` for a terminator, which stays pending in
the machine until `finish`, and the length of the decoded payload for data. -/
def accept : RequestKind × Bytes → Action ServerInquiry HandlerError (Option ℕ)
  | (.end_, _) => do
      Action.modify fun inquiry => { inquiry with outcome := some .completed }
      pure none
  | (.can, _) => do
      Action.modify fun inquiry => { inquiry with outcome := some .cancelled }
      pure none
  | (_, line) => do
      let len ← onLink (decodeLine line)
      let inquiry ← Action.get
      let total ← Action.lift (Outcome.okOr (.limit .capacityExceeded) (chargeLimit len inquiry))
      Action.modify fun inquiry => { inquiry with received := total }
      pure (some len)

/-- The part of `next` that its `IoOperation` covers. -/
def nextOperation : Action ServerInquiry HandlerError (Option ℕ) :=
  Action.onFailure abandon do
    let inquiry ← Action.get
    let heard ← onLink (nextLine (inquiry.link.channel.supply + 1))
    accept heard

/-- The end of `next`: the payload is looked up in the receive buffer again. -/
def payload : Option ℕ → Action ServerInquiry HandlerError (Option PayloadRef)
  | none => pure none
  | some len => do
      let inquiry ← Action.get
      let line ← Action.lift (Outcome.okOr (.state .unusable) inquiry.link.channel.receivedLine)
      let data ← Action.lift
        (Outcome.index (if 2 + len ≤ line.length then some ((line.take (2 + len)).drop 2) else none))
      pure (some (PayloadRef.new data inquiry.sensitivity))

def next : Action ServerInquiry HandlerError (Option PayloadRef) := do
  let inquiry ← Action.get
  if inquiry.outcome.isSome then pure none
  else do
    let len ← nextOperation
    payload len

/-- `finish`, and the `Drop` of the guard when it fails. -/
def finish (inquiry : ServerInquiry) : Outcome HandlerError InquiryOutcome × Link :=
  Link.ioOperation (do
    let outcome ← Action.lift (Outcome.okOr (.state .notReady) inquiry.outcome)
    Link.receiveRequest outcome.request
    pure outcome) inquiry.link

end ServerInquiry

end Assuan
