import Assuan.Protocol.Secret
import Assuan.Protocol.Message
import Assuan.Transport.Channel

/-!
# Agent discovery (`assuan-transport/src/discovery.rs`)

The output of `gpgconf` is drained by two loops that spend one atomic budget; the
socket file of a native Windows agent is read into a small buffer and parsed. What
the operating system decides, the sizes of reads and the order of the two loops,
is data of the model.
-/

namespace Assuan

/-! ## §1  Draining the output -/

def outputLimit : ℕ := 1024 * 1024

/-- The size of the buffer that `read` fills. -/
def scratchBytes : ℕ := 8192

/-- `checked_sub`; on operands that the source subtracts without a check, `none` is
the overflow. -/
def checkedSub (a b : ℕ) : Option ℕ := if b ≤ a then some (a - b) else none

/-- Where a `read_output` loop stands: at `pipe.read`, at `fetch_update` with what
was read, after it, or at its end. -/
inductive ReaderPhase : Type where
  | reading
  | spending (scratch : Bytes)
  | storing (scratch : Bytes)
  | ended (result : Outcome TransportError SecretBytes)

/-- `pending` is what the pipe delivers before its end. `accepted` counts the bytes
the budget was charged for; no step depends on it. -/
structure Reader : Type where
  collect : Bool
  pending : Bytes
  phase : ReaderPhase
  output : SecretBytes
  accepted : ℕ

/-- `read_output` up to its loop, when the two allocations have succeeded. -/
def Reader.new (pipe : Bytes) (collect : Bool) : Reader where
  collect := collect
  pending := pipe
  phase := .reading
  output := ⟨if collect then outputLimit else 0, [], Nat.zero_le _⟩
  accepted := 0

inductive ReaderEvent : Type where
  | read (size : ℕ)
  | spend
  | store

/-- One step of a loop: the new budget and the loop after it. A read returns
between one byte and a full buffer, and nothing only at the end of the pipe. -/
def Reader.advance (budget : ℕ) (r : Reader) : ReaderEvent → Option (ℕ × Reader)
  | .read size =>
      match r.phase with
      | .reading =>
          if r.pending = [] then some (budget, { r with phase := .ended (.ok r.output) })
          else if 1 ≤ size ∧ size ≤ scratchBytes ∧ size ≤ r.pending.length then
            some (budget, { r with
              pending := r.pending.drop size
              phase := .spending (r.pending.take size) })
          else none
      | _ => none
  | .spend =>
      match r.phase with
      | .spending scratch =>
          match checkedSub budget scratch.length with
          | some remaining => some (remaining, { r with
              phase := .storing scratch
              accepted := r.accepted + scratch.length })
          | none => some (budget, { r with phase := .ended (.err (.discovery .outputLimit)) })
      | _ => none
  | .store =>
      match r.phase with
      | .storing scratch =>
          if r.collect then
            match r.output.extend scratch with
            | .ok output => some (budget, { r with phase := .reading, output := output })
            | .err e => some (budget, { r with phase := .ended (.err (.limit e)) })
            | .panic => some (budget, { r with phase := .ended .panic })
            | .dropped => some (budget, { r with phase := .ended .dropped })
          else some (budget, { r with phase := .reading })
      | _ => none

/-- The two loops that `try_join!` polls. -/
inductive Pipe : Type where
  | stdout
  | stderr
deriving DecidableEq, Repr

structure Draining : Type where
  budget : ℕ
  stdout : Reader
  stderr : Reader

namespace Draining

def reader (s : Draining) : Pipe → Reader
  | .stdout => s.stdout
  | .stderr => s.stderr

def setReader (s : Draining) (r : Reader) : Pipe → Draining
  | .stdout => { s with stdout := r }
  | .stderr => { s with stderr := r }

/-- Any of the two loops takes its next step. -/
def step (s : Draining) (event : Pipe × ReaderEvent) : Option Draining := do
  let (budget, r) ← (s.reader event.1).advance s.budget event.2
  pure { s.setReader r event.1 with budget := budget }

def new (stdout stderr : Bytes) : Draining :=
  ⟨outputLimit, Reader.new stdout true, Reader.new stderr false⟩

end Draining

/-! ## §2  Native socket files -/

structure Ipv4Addr : Type where
  octets : UInt8 × UInt8 × UInt8 × UInt8
deriving DecidableEq, Repr

def Ipv4Addr.localhost : Ipv4Addr := ⟨127, 0, 0, 1⟩

/-- Of the address families only the one that discovery builds. -/
structure SocketAddr : Type where
  ip : Ipv4Addr
  port : ℕ
deriving DecidableEq, Repr

inductive Endpoint : Type where
  | tcp (address : SocketAddr)
deriving DecidableEq, Repr

structure ResolvedEndpoint : Type where
  endpoint : Endpoint
  nonce : Option SecretBytes

def u16Max : ℕ := 0xFFFF

/-- One call of `file.read`: at most this many bytes, or an error. -/
inductive FileRead : Type where
  | upTo (size : ℕ)
  | failed

/-- A path and what the system answers about it; from the end of `reads` on a read
fills the buffer. -/
structure SocketFile : Type where
  opens : Bool
  isFile : Option Bool
  content : Bytes
  reads : List FileRead

section SocketFile

-- `reserve n` tells whether an allocation of `n` bytes succeeds
variable (reserve : ℕ → Bool)

/-- `protected_buffer`. -/
def protectedBuffer (capacity : ℕ) : Outcome LimitError (Buffer capacity) :=
  if reserve capacity then .ok (Buffer.zero capacity) else .err .allocationFailed

/-- `SecretBytes::with_capacity`. -/
def secretWithCapacity (capacity : ℕ) : Outcome LimitError SecretBytes :=
  if reserve capacity then .ok ⟨capacity, [], Nat.zero_le _⟩ else .err .allocationFailed

/-- `file.read(&mut bytes[used..])`: at least one byte, unless the file has ended. -/
def fileRead (size room : ℕ) (rest : Bytes) : Bytes :=
  rest.take (min (max 1 size) room)

/-- `while used < bytes.len()`, with one unit of fuel for each round. -/
def readFile {n : ℕ} : ℕ → List FileRead → Bytes → Buffer n → ℕ →
    Outcome TransportError (Buffer n × ℕ)
  | 0, _, _, _, _ => .panic
  | fuel + 1, reads, rest, bytes, used =>
      if used < n then
        match reads.headD (.upTo n) with
        | .failed => .err .io
        | .upTo size => do
            let read := fileRead size (n - used) rest
            if read.length = 0 then .ok (bytes, used)
            else do
              let bytes ← Outcome.index (bytes.copyAt used read)
              let used ← Outcome.index (checkedAdd usizeMax used read.length)
              readFile fuel reads.tail (rest.drop read.length) bytes used
      else .ok (bytes, used)

/-- The loop over the digits, whose arithmetic is that of `u16`. -/
def portLoop : ℕ → Bytes → Outcome TransportError ℕ
  | port, [] => .ok port
  | port, digit :: digits =>
      if isAsciiDigit digit = false then .err (.discovery .invalidOutput)
      else do
        let value ← Outcome.index (checkedSub digit.toNat 48)
        let port ← Outcome.okOr (.discovery .invalidOutput)
          ((checkedMul u16Max port 10).bind (checkedAdd u16Max · value))
        portLoop port digits

def parseNativeSocketFile (bytes : Bytes) : Outcome TransportError ResolvedEndpoint :=
  if asBytes "!<socket >" <+: bytes then .err (.discovery .unsupportedFormat)
  else if bytes.length > 22 then .err (.discovery .invalidOutput)
  else do
    let split ← Outcome.okOr (.discovery .invalidOutput) (bytes.findIdx? (· == lf))
    if split = 0 ∨ split > 5 then .err (.discovery .invalidOutput)
    else do
      let tail ← Outcome.index ((checkedSub bytes.length split).bind (checkedSub · 1))
      if tail ≠ 16 then .err (.discovery .invalidOutput)
      else do
        let digits ← Outcome.index (if split ≤ bytes.length then some (bytes.take split) else none)
        let port ← portLoop 0 digits
        if port = 0 then .err (.discovery .invalidOutput)
        else do
          let nonce ← (secretWithCapacity reserve 16).mapErr .limit
          let rest ← Outcome.index
            (if split + 1 ≤ bytes.length then some (bytes.drop (split + 1)) else none)
          let nonce ← (nonce.extend rest).mapErr .limit
          .ok ⟨.tcp ⟨.localhost, port⟩, some nonce⟩

/-- `read_native_socket_file` up to the call of the parser: the bytes it read. -/
def gatherSocketFile (file : SocketFile) : Outcome TransportError Bytes :=
  if file.opens = false then .err .io
  else
    match file.isFile with
    | none => .err .io
    | some false => .err (.discovery .invalidOutput)
    | some true => do
        let bytes ← (protectedBuffer reserve 23).mapErr .limit
        let (bytes, used) ← readFile 24 file.reads file.content bytes 0
        Outcome.index (bytes.slice 0 used)

def readNativeSocketFile (file : SocketFile) : Outcome TransportError ResolvedEndpoint := do
  let bytes ← gatherSocketFile reserve file
  parseNativeSocketFile reserve bytes

end SocketFile

end Assuan
