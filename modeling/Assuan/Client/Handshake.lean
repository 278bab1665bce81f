import Assuan.Client.Session

/-!
# The greeting (`options.rs`, `handshake.rs`, `client.rs`)

A handshake owns the client until the server has greeted it. Invalid options are
found when it is made and reported by the first call. `drive` reads the greeting
to its end; an inquiry goes to the handler, and without one it is cancelled.
-/

namespace Assuan

/-! ## §1  Options -/

structure ClientOptions : Type where
  inquiryTimeout : ℕ
  maxInquiryBytes : ℕ
  connectTimeout : ℕ
  greetingTimeout : ℕ
  commandTimeout : ℕ
deriving DecidableEq, Repr

namespace ClientOptions

/-- `Default`, with durations in seconds. -/
def default : ClientOptions where
  inquiryTimeout := 120
  maxInquiryBytes := 1024 * 1024
  connectTimeout := 10
  greetingTimeout := 120
  commandTimeout := 300

/-- The instants are computed on the horizon of the session to come. -/
def validate (options : ClientOptions) : Action SessionCore ClientError Unit :=
  if options.maxInquiryBytes = 0 then Action.throw .invalidOptions
  else Action.forEach SessionCore.deadline
    [options.connectTimeout, options.greetingTimeout, options.commandTimeout,
      options.inquiryTimeout]

end ClientOptions

/-! ## §2  The handshake -/

structure Handshake : Type where
  client : Option SessionCore
  completion : Completion
  error : Option ClientError

namespace Handshake

/-- `self.error.take()`, returned if there is one. -/
def takeError : Action Handshake ClientError Unit := fun h =>
  match h.error with
  | some e => (.err e, { h with error := none })
  | none => (.ok (), h)

def invalidate (h : Handshake) : Handshake :=
  { h with client := h.client.map SessionCore.invalidate }

/-- `self.client.as_mut().ok_or(Incomplete)?`, with the completion beside it. -/
def onClient {α : Type} (x : Action (SessionCore × Completion) ClientError α) :
    Action Handshake ClientError α := fun h =>
  match h.client with
  | none => (.err .incomplete, h)
  | some core =>
      let r := x (core, h.completion)
      (r.1, { h with client := some r.2.1, completion := r.2.2 })

def next : Action Handshake ClientError (Option Event) := do
  Action.onError invalidate takeError
  onClient Transaction.next

/-- `self.client.take().ok_or(Incomplete)`. -/
def takeClient : Action Handshake ClientError SessionCore := fun h =>
  (Outcome.okOr .incomplete h.client, { h with client := none })

/-- The `match` at the end of `finish`. -/
def resultOf : Completion → Action Handshake ClientError SessionCore
  | .success => takeClient
  | .remote code => Action.throw (.greetingRejected code)
  | .pending => Action.throw .incomplete

def finish : Action Handshake ClientError SessionCore := do
  takeError
  onClient (onCore SessionCore.check)
  let h ← Action.get
  resultOf h.completion

/-- A handler with a state of its own. `respond` consumes the inquiry, its `Drop`
included, and a callback that exceeds the deadline ends with `Timeout`. -/
structure GreetingHandler (σ : Type) : Type where
  respond : σ → Inquiry → Action SessionCore ClientError σ

section Drive

variable {σ : Type}

/-- What `drive` does about an inquiry. -/
def answer (handler : Option (GreetingHandler σ)) (state : σ) (inquiry : Inquiry) :
    Action SessionCore ClientError σ :=
  match handler with
  | some handler => handler.respond state inquiry
  | none => do
      Inquiry.finish true inquiry
      pure state

/-- Every round but the last takes a line. -/
def drive (handler : Option (GreetingHandler σ)) : ℕ → σ → Action Handshake ClientError SessionCore
  | 0, _ => Action.lift .panic
  | fuel + 1, state => do
      let event ← next
      match event with
      | none => finish
      | some (.inquire inquiry) => do
          let state ← onClient (onCore (answer handler state inquiry))
          drive handler fuel state
      | some _ => drive handler fuel state

end Drive

end Handshake

/-! ## §3  Clients from streams -/

namespace Client

/-- The session before the greeting. -/
def session (stream : Stream) (clock horizon allocations : List Bool) (options : ClientOptions) :
    SessionCore where
  channel := Channel.new stream clock
  machine := .new
  ioUncertain := false
  sensitivity := .public_
  commandTimeout := options.commandTimeout
  inquiryTimeout := options.inquiryTimeout
  maxInquiryBytes := options.maxInquiryBytes
  horizon := horizon
  allocations := allocations
  log := []

/-- `options.validate().and_then(|()| deadline(options.greeting_timeout))`. -/
def validated (options : ClientOptions) : Action SessionCore ClientError Unit := do
  options.validate
  SessionCore.deadline options.greetingTimeout

def handshake (stream : Stream) (clock horizon allocations : List Bool) (options : ClientOptions) :
    Handshake :=
  match validated options (session stream clock horizon allocations options) with
  | (.err e, core) => ⟨some core, .pending, some e⟩
  | (_, core) => ⟨some core, .pending, none⟩

/-- `handshake(..).drive(None)`. The bytes of the stream bound the rounds. -/
def fromStream (stream : Stream) (clock horizon allocations : List Bool) (options : ClientOptions) :
    Outcome ClientError SessionCore × Handshake :=
  @Handshake.drive Unit none ((Channel.new stream clock).supply + 2) ()
    (handshake stream clock horizon allocations options)

end Client

end Assuan
