import Assuan.Server.Context

/-!
# Server sessions (`session.rs`, `hooks.rs`, `options.rs`, `error.rs`)

A callback is any program over the operations of its context: a tree that may
choose every operation by the outcomes of the earlier ones, drop or forget the
guard of an inquiry, and swallow errors. `Session.run` authenticates, answers
commands one by one and closes the stream.
-/

namespace Assuan

inductive ServerError : Type where
  | transport (error : TransportError)
  | protocol (error : ProtocolError)
  | state (error : StateError)
  | handler (error : HandlerError)
  | invalidOptions
deriving DecidableEq, Repr

inductive SessionEnd : Type where
  | clean
  | protocol
  | transport
  | cancelled
  | timeout
  | handler
deriving DecidableEq, Repr

def endReason : ServerError → SessionEnd
  | .transport .timeout | .handler (.transport .timeout) => .timeout
  | .protocol _ | .state _ | .transport (.protocol _) => .protocol
  | .handler (.protocol _) | .handler (.state _) | .handler (.transport (.protocol _)) => .protocol
  | .transport _ | .handler (.transport _) => .transport
  | .handler _ | .invalidOptions => .handler

/-- `From`, as `?` applies it in the runner. It meets no other variants there. -/
def ServerError.ofHandler : HandlerError → ServerError
  | .transport e => .transport e
  | .protocol e => .protocol e
  | .state e => .state e
  | e => .handler e

/-- The errors that end a session without a response. -/
def HandlerError.isFatal : HandlerError → Bool
  | .transport _ | .protocol _ | .state _ | .limit _ => true
  | _ => false

/-- `validate_message`: the line is encoded and thrown away. -/
def validateMessage (code : UInt32) (message : String) : Outcome ProtocolError Unit := do
  let _ ← encoded (encodeResponse (.err code (asBytes message)))
  .ok ()

def HandlerError.validateRemote : HandlerError → Outcome ProtocolError Unit
  | .remote code message => validateMessage code message
  | _ => .ok ()

/-! ## §1  Options -/

structure OptionRequest : Type where
  name : Bytes
  value : Option Bytes
deriving DecidableEq, Repr

/-- `u8::is_ascii_whitespace`. -/
def isAsciiWhitespace (b : UInt8) : Bool := b = 32 ∨ b = 9 ∨ b = 10 ∨ b = 12 ∨ b = 13

/-- `trim_ascii`. -/
def trim (bytes : Bytes) : Bytes :=
  ((bytes.dropWhile isAsciiWhitespace).reverse.dropWhile isAsciiWhitespace).reverse

/-- The value of an option, from what follows its name. -/
def optionValue (rest : Bytes) : Option Bytes :=
  match stripPrefix (asBytes "=") rest with
  | some value => some (trim value)
  | none => if rest = [] then none else some rest

def OptionRequest.parse (bytes : Bytes) : Outcome ProtocolError OptionRequest :=
  if bytes.any isForbidden then .err .invalidLine
  else
    let trimmed := trim bytes
    let bytes := (stripPrefix (asBytes "--") trimmed).getD trimmed
    let stop := bytes.findIdx fun b => b = space ∨ b = 9 ∨ b = 61
    do
      let text ← Outcome.okOr .invalidToken (fromUtf8 (bytes.take stop))
      let _ ← Command.new text []
      .ok ⟨bytes.take stop, optionValue (trim (bytes.drop stop))⟩

/-- The limits of a session; durations in nanoseconds. -/
structure ServerOptions : Type where
  maxSessions : ℕ
  greetingTimeout : ℕ
  commandTimeout : ℕ
  inquiryTimeout : ℕ
  maxInquiryBytes : ℕ
  idleTimeout : ℕ
  shutdownTimeout : ℕ

/-- `tokio::sync::Semaphore::MAX_PERMITS`. -/
def maxPermits : ℕ := usizeMax / 8

/-! ## §2  Callbacks -/

/-- What a callback holds: the context, or the guard of an inquiry. -/
inductive Mode : Type where
  | context
  | inquiry

/-- The body of a callback. Every operation is followed by what the callback does
next for each way in which it can end; `dropped` is a future that was polled and
then dropped. Borrowing rules out every other order: while a guard lives it is
the only thing that can be used.

`done` returns a result and the application state, and `expire` stands for a
callback that is still waiting for something else when its deadline passes. -/
inductive Program (S : Type) : Mode → Type where
  | done (result : Except HandlerError Unit) (state : S) : Program S .context
  | expire (state : S) : Program S .context
  | sendData (data : Bytes) (k : Outcome HandlerError Unit → Program S .context) :
      Program S .context
  | sendStatus (keyword : String) (args : Bytes)
      (k : Outcome HandlerError Unit → Program S .context) : Program S .context
  | inquire (keyword : String) (args : Bytes) (sensitivity : Sensitivity)
      (opened : Program S .inquiry) (failed : Outcome HandlerError Unit → Program S .context) :
      Program S .context
  | next (k : Outcome HandlerError (Option PayloadRef) → Program S .inquiry) : Program S .inquiry
  | finish (k : Outcome HandlerError InquiryOutcome → Program S .context) : Program S .inquiry
  | drop (k : Program S .context) : Program S .inquiry
  | forget (k : Program S .context) : Program S .inquiry

/-- What is borrowed in each mode. -/
@[reducible] def Held : Mode → Type
  | .context => Link
  | .inquiry => ServerInquiry

/-- The end of a callback. `result` is `none` when its deadline expired. `faulty`
records that an operation failed or was dropped midway, or that an inquiry was
left without a successful `finish`; the source has no such field. -/
structure Report (S : Type) : Type where
  result : Option (Except HandlerError Unit)
  state : S
  faulty : Bool
  link : Link

def Outcome.isOk {ε α : Type} : Outcome ε α → Bool
  | .ok _ => true
  | _ => false

namespace Program

variable {S : Type}

/-- Running a callback with `limit` as the inquiry budget of the session. -/
def run (limit : ℕ) : {mode : Mode} → Program S mode → Held mode → Bool → Report S
  | _, .done result state, link, faulty => ⟨some result, state, faulty, link⟩
  | _, .expire state, link, faulty => ⟨none, state, faulty, link⟩
  | _, .sendData data k, link, faulty =>
      let (o, link) := Link.sendData data link
      (k o).run limit link (faulty || !o.isOk)
  | _, .sendStatus keyword args k, link, faulty =>
      let (o, link) := Link.sendStatus keyword args link
      (k o).run limit link (faulty || !o.isOk)
  | _, .inquire keyword args sensitivity opened failed, link, faulty =>
      let (o, link) := ServerInquiry.begin keyword args link
      if o.isOk then opened.run limit (ServerInquiry.new link sensitivity limit) faulty
      else (failed o).run limit link true
  | _, .next k, inquiry, faulty =>
      let (o, inquiry) := ServerInquiry.next inquiry
      (k o).run limit inquiry (faulty || !o.isOk)
  | _, .finish k, inquiry, faulty =>
      let (o, link) := ServerInquiry.finish inquiry
      (k o).run limit link (faulty || !o.isOk)
  | _, .drop k, inquiry, _ => k.run limit inquiry.link.abandon true
  | _, .forget k, inquiry, _ => k.run limit inquiry.link true

end Program

/-- What a callback reads of its session. The peer's identity is fixed for a
session and not modelled. -/
structure CommandContext (S : Type) : Type where
  state : S
  authenticated : Bool

structure SessionHooks (S : Type) : Type where
  authenticate : CommandContext S → Program S .context
  option : OptionRequest → CommandContext S → Program S .context
  reset : CommandContext S → Program S .context
  /-- `dropped` is a hook that has not returned within its budget. -/
  closed : S → SessionEnd → Outcome HandlerError Unit × S

/-- Codes of `libgpg-error`. -/
def internalCode : UInt32 := 63
def unknownOptionCode : UInt32 := 174
def unknownCommandCode : UInt32 := 175
def invalidValueCode : UInt32 := 55

def defaultHooks (S : Type) : SessionHooks S where
  authenticate := fun context => .done (.ok ()) context.state
  option := fun _ context =>
    .done (.error (.remote unknownOptionCode "unknown option")) context.state
  reset := fun context => .done (.ok ()) context.state
  closed := fun state _ => (.ok (), state)

/-- What a server shares among its sessions. `HELP` lists the registered names in
the order of a hash map and with the descriptions that the handlers give at that
moment, so the listing is only known to have the right names. -/
structure Service (S : Type) : Type where
  registry : Registry (Command → CommandContext S → Program S .context)
  hooks : SessionHooks S
  options : ServerOptions
  listing : S → List (String × String)
  listing_names : ∀ state,
    ((listing state).map Prod.fst).Perm (registry.handlers.map Prod.fst)

/-! ## §3  Sessions -/

/-- The traffic between one command line and the next, the line itself (none for
the greeting), and how its callback ended. -/
structure Block : Type where
  opener : Option Bytes
  result : Option (Except HandlerError Unit)
  faulty : Bool
  traffic : List Io

/-- `horizon` tells for each deadline to be computed whether it overflows, and
`false` from its end on. The last five fields are a record of what happened and
are never read by the code: the finished blocks, and for the current one its
opener, the length of the trace when it began, its result and its faults. -/
structure Session (S : Type) : Type where
  link : Link
  state : S
  authenticated : Bool
  horizon : List Bool
  past : List Block
  opener : Option Bytes
  mark : ℕ
  result : Option (Except HandlerError Unit)
  faulty : Bool

namespace Session

variable {S : Type}

def new (stream : Stream) (clock horizon : List Bool) (state : S) : Session S where
  link := ⟨Channel.new stream clock, .new⟩
  state := state
  authenticated := false
  horizon := horizon
  past := []
  opener := none
  mark := 0
  result := none
  faulty := false

def current (session : Session S) : Block :=
  ⟨session.opener, session.result, session.faulty,
    session.link.channel.trace.drop session.mark⟩

def blocks (session : Session S) : List Block := session.past ++ [session.current]

/-- A command line begins a new block. -/
def openBlock (line : Bytes) (session : Session S) : Session S :=
  { session with
    past := session.blocks, opener := some line, mark := session.link.channel.trace.length
    result := none, faulty := false }

def onLink {α : Type} (x : Action Link HandlerError α) : Action (Session S) ServerError α :=
  Action.mapErr .ofHandler
    (Action.zoom link (fun session link => { session with link := link }) x)

/-- `deadline(duration)?`. -/
def deadline (duration : ℕ) : Action (Session S) ServerError Unit := fun session =>
  if duration = 0 then (.err .invalidOptions, session)
  else (if session.horizon.headD false then .err .invalidOptions else .ok (),
    { session with horizon := session.horizon.tail })

def validate (options : ServerOptions) : Action (Session S) ServerError Unit :=
  if options.maxInquiryBytes = 0 ∨ options.maxSessions = 0 ∨ options.maxSessions > maxPermits then
    Action.throw .invalidOptions
  else
    Action.forEach deadline [options.greetingTimeout, options.commandTimeout,
      options.inquiryTimeout, options.idleTimeout, options.shutdownTimeout]

/-! ### Running callbacks -/

/-- A result that needs no callback. -/
def settle (result : Except HandlerError Unit) :
    Action (Session S) ServerError (Except HandlerError Unit) := fun session =>
  (.ok result, { session with result := some result })

/-- `timeout_at(deadline, callback)`. -/
def callback (limit : ℕ) (body : CommandContext S → Program S .context) :
    Action (Session S) ServerError (Except HandlerError Unit) := fun session =>
  let report := (body ⟨session.state, session.authenticated⟩).run limit session.link false
  let session := { session with
    link := report.link, state := report.state, result := report.result, faulty := report.faulty }
  match report.result with
  | some result => (.ok result, session)
  | none => (.err (.transport .timeout), session)

/-- `HELP` under the command deadline, which drops it wherever it waits. -/
def help (entries : List (String × String)) :
    Action (Session S) ServerError (Except HandlerError Unit) := fun session =>
  match Link.help entries session.link with
  | (.ok (), link) => (.ok (.ok ()), { session with link := link, result := some (.ok ()) })
  | (.err e, link) =>
      (.ok (.error e), { session with link := link, result := some (.error e), faulty := true })
  | (.dropped, link) => (.err (.transport .timeout), { session with link := link, faulty := true })
  | (.panic, link) => (.panic, { session with link := link, faulty := true })

/-- The `match` on the command name. -/
def dispatch (service : Service S) (command : Command) :
    Action (Session S) ServerError (Except HandlerError Unit) :=
  let limit := service.options.maxInquiryBytes
  match route service.registry command.name with
  | .nothing => settle (.ok ())
  | .help => fun session => help (service.listing session.state) session
  | .option =>
      match OptionRequest.parse command.args with
      | .ok request => callback limit (service.hooks.option request)
      | _ => settle (.error (.remote invalidValueCode "invalid option"))
  | .reset => callback limit service.hooks.reset
  | .handler handler => callback limit (handler.call command)
  | .unknown => settle (.error (.remote unknownCommandCode "unknown command"))

/-! ### The final response -/

def rejectFatal : Except HandlerError Unit → Outcome ServerError Unit
  | .error e => if e.isFatal then .err (.handler e) else .ok ()
  | .ok () => .ok ()

def finalLine : Except HandlerError Unit → Outcome ServerError ServerLine
  | .ok () => .ok (.ok [])
  | .error (.remote code message) => do
      (HandlerError.validateRemote (.remote code message)).mapErr .protocol
      .ok (.err code (asBytes message))
  | .error .internal => .ok (.err internalCode (asBytes "internal error"))
  | .error e => .err (.handler e)

/-- `matches!(state, Greeting | Handler | AwaitFinal)`. -/
def mayFinish (machine : ServerMachine) : Outcome ServerError Unit :=
  match machine.state with
  | .greeting | .handler | .awaitFinal => .ok ()
  | _ => .err (.state .unusable)

/-- A rejected greeting ends the session after its response. -/
def rejectGreeting (greeting : Bool) : Except HandlerError Unit → Outcome ServerError Unit
  | .error e => if greeting then .err (.handler e) else .ok ()
  | .ok () => .ok ()

def finalize (result : Except HandlerError Unit) (greeting : Bool) :
    Action (Session S) ServerError Unit := do
  Action.lift (rejectFatal result)
  let session ← Action.get
  Action.lift (mayFinish session.link.machine)
  let line ← Action.lift (finalLine result)
  let bytes ← Action.lift ((encoded (encodeResponse line)).mapErr .protocol)
  onLink (Link.sendResponse line.kind)
  onLink (Link.writeLine bytes)
  Action.lift (rejectGreeting greeting result)

/-! ### The loop -/

/-- The inner loop of `drive`: the next command line, or `None` at the end of the
stream. Each round consumes a line, so the supply of the channel bounds the
rounds. -/
def nextCommand : ℕ → Action (Session S) ServerError (Option Bytes)
  | 0 => Action.lift .panic
  | fuel + 1 => do
      let line ← onLink (Link.onChannel Channel.readLineOrEof)
      match line with
      | none => pure none
      | some line => do
          let kind ← Action.lift ((requestKind line).mapErr .protocol)
          onLink (Link.receiveRequest kind)
          if kind = .empty ∨ kind = .comment then nextCommand fuel else pure (some line)

/-- One command, from its line to its final response. The value says whether it
was `BYE`. -/
def answer (service : Service S) (line : Bytes) : Action (Session S) ServerError Bool := do
  Action.modify (openBlock line)
  let command ← Action.lift ((Command.parse line).mapErr .protocol)
  deadline service.options.commandTimeout
  let result ← dispatch service command
  finalize result false
  pure (command.name = "BYE")

/-- The outer loop of `drive`, for at most so many commands; what is said about
it holds for every bound. -/
def serve (service : Service S) : ℕ → Action (Session S) ServerError Unit
  | 0 => Action.lift .panic
  | fuel + 1 => do
      deadline service.options.idleTimeout
      let session ← Action.get
      let line ← nextCommand (session.link.channel.supply + 1)
      match line with
      | none => pure ()
      | some line => do
          let closing ← answer service line
          if closing then pure () else serve service fuel

def drive (service : Service S) (rounds : ℕ) : Action (Session S) ServerError Unit := do
  deadline service.options.greetingTimeout
  let auth ← callback service.options.maxInquiryBytes service.hooks.authenticate
  finalize auth true
  Action.modify fun session => { session with authenticated := true }
  serve service rounds

/-- The close hook; its failure counts only when the session itself succeeded. -/
def closing (service : Service S) (result : Outcome ServerError Unit) :
    Action (Session S) ServerError Unit := do
  let reason := match result with
    | .err e => endReason e
    | _ => .clean
  deadline service.options.shutdownTimeout
  let session ← Action.get
  let (closed, state) := service.hooks.closed session.state reason
  Action.modify fun session => { session with state := state }
  Action.lift (match result, closed with
    | .ok (), .err e => .err (.handler e)
    | .ok (), .dropped => .err (.transport .timeout)
    | .ok (), closed => closed.mapErr .handler
    | result, _ => result)

/-- `Session::run`. When its own future is dropped, or a callback panics, the
channel goes with it and no hook runs. -/
def run (service : Service S) (rounds : ℕ) : Action (Session S) ServerError Unit := do
  validate service.options
  fun session =>
    match drive service rounds session with
    | (.dropped, session) => (.dropped, session)
    | (.panic, session) => (.panic, session)
    | (result, session) =>
        closing service result { session with
          link := ⟨session.link.channel.close, session.link.machine.close⟩ }

end Session

end Assuan
