import Assuan.Transport.Channel

/-!
# The Unix listener (`assuan-transport/src/unix.rs`)

A listener owns a socket file in a private directory. What the system answers is a
parameter of the model, and the calls are kept with their answers. A value that goes
out of scope closes its descriptor.
-/

namespace Assuan

/-! ## §1  Paths and files -/

inductive Component : Type where
  | rootDir
  | curDir
  | parentDir
  | normal (name : Bytes)
deriving DecidableEq, Repr

/-- A path is read through its components. -/
structure Path : Type where
  components : List Component
deriving DecidableEq, Repr

namespace Path

def fileName (path : Path) : Option Bytes :=
  match path.components.getLast? with
  | some (.normal name) => some name
  | none | some .rootDir | some .curDir | some .parentDir => none

def parent (path : Path) : Option Path :=
  match path.components.getLast? with
  | none | some .rootDir => none
  | some .curDir | some .parentDir | some (.normal _) => some ⟨path.components.dropLast⟩

/-- `name` is a file name, so it is relative. -/
def join (path : Path) (name : Bytes) : Path := ⟨path.components ++ [.normal name]⟩

@[simp] theorem parent_join (path : Path) (name : Bytes) : (path.join name).parent = some path := by
  simp [parent, join]

end Path

inductive FileKind : Type where
  | directory
  | symlink
  | socket
  | other
deriving DecidableEq, Repr

/-- What `symlink_metadata` reports. -/
structure Metadata : Type where
  kind : FileKind
  device : UInt64
  inode : UInt64
  uid : UInt32
  mode : UInt32
deriving DecidableEq, Repr

structure FileIdentity : Type where
  device : UInt64
  inode : UInt64
deriving DecidableEq, Repr

def FileIdentity.of (metadata : Metadata) : FileIdentity := ⟨metadata.device, metadata.inode⟩

structure Credentials : Type where
  uid : UInt32
  gid : UInt32
  pid : Option Int32
deriving DecidableEq, Repr

/-- `std::io::ErrorKind`, as far as it is told apart. -/
inductive ErrorKind : Type where
  | notFound
  | other
deriving DecidableEq, Repr

/-! ## §2  The system -/

/-- A descriptor. -/
abbrev Handle : Type := ℕ

/-- A call with its answer. No answer to `accept` means that its future was dropped. -/
inductive SystemCall : Type where
  | symlinkMetadata (path : Path) (answer : Except ErrorKind Metadata)
  | canonicalize (path : Path) (answer : Except ErrorKind Path)
  | bind (path : Path) (answer : Except ErrorKind Handle)
  | setPermissions (path : Path) (mode : UInt32) (answer : Except ErrorKind Unit)
  | removeFile (path : Path) (answer : Except ErrorKind Unit)
  | accept (inner : Handle) (answer : Option (Except ErrorKind Handle))
  | peerCred (stream : Handle) (answer : Except ErrorKind Credentials)
  | close (handle : Handle)

structure Os (ω : Type) : Type where
  geteuid : ω → UInt32
  symlinkMetadata : Path → ω → Except ErrorKind Metadata × ω
  canonicalize : Path → ω → Except ErrorKind Path × ω
  bind : Path → ω → Except ErrorKind Handle × ω
  setPermissions : Path → UInt32 → ω → Except ErrorKind Unit × ω
  removeFile : Path → ω → Except ErrorKind Unit × ω
  accept : Handle → ω → Option (Except ErrorKind Handle) × ω
  peerCred : Handle → ω → Except ErrorKind Credentials × ω
  close : Handle → ω → ω

/-- The world around the process, and its calls so far. -/
structure Host (ω : Type) : Type where
  world : ω
  calls : List SystemCall

namespace Host

variable {ω α : Type}

def record (f : ω → α × ω) (entry : α → SystemCall) : Action (Host ω) TransportError α :=
  fun host => (.ok (f host.world).1, ⟨(f host.world).2, host.calls ++ [entry (f host.world).1]⟩)

theorem record_apply (f : ω → α × ω) (entry : α → SystemCall) (host : Host ω) :
    record f entry host =
      (.ok (f host.world).1, ⟨(f host.world).2, host.calls ++ [entry (f host.world).1]⟩) := rfl

/-- The `?` operator. -/
def answered : Except ErrorKind α → Outcome TransportError α
  | .ok a => .ok a
  | .error _ => .err .io

def call (f : ω → Except ErrorKind α × ω) (entry : Except ErrorKind α → SystemCall) :
    Action (Host ω) TransportError α := do
  let answer ← record f entry
  Action.lift (answered answer)

/-- What a dropped descriptor does. -/
def close (os : Os ω) (handle : Handle) (host : Host ω) : Host ω :=
  ⟨os.close handle host.world, host.calls ++ [.close handle]⟩

end Host

/-! ## §3  The listener -/

/-- `inner` is the bound socket, until it is closed. -/
structure UnixListener : Type where
  inner : Option Handle
  path : Path
  parent : FileIdentity
  socket : FileIdentity
  uid : UInt32
  cleaned : Bool
deriving DecidableEq, Repr

inductive PeerIdentity : Type where
  | unix (uid gid : UInt32) (pid : Option UInt32)
deriving DecidableEq, Repr

structure UnixListener.Accepted : Type where
  stream : Handle
  peer : Option PeerIdentity
deriving DecidableEq, Repr

section Operations

variable {ω : Type} (os : Os ω)

def privateDirectory (path : Path) (uid : UInt32) :
    Action (Host ω) TransportError FileIdentity := do
  let metadata ← Host.call (os.symlinkMetadata path) (.symlinkMetadata path)
  if metadata.kind ≠ .directory ∨ metadata.kind = .symlink ∨ metadata.uid ≠ uid ∨
      metadata.mode &&& 0o077 ≠ 0 then
    Action.throw .accessPolicy
  else
    pure (FileIdentity.of metadata)

def authorizeUid (actual expected : UInt32) : Outcome TransportError Unit :=
  if actual ≠ expected then .err .accessPolicy else .ok ()

namespace UnixListener

def verifyParent (listener : UnixListener) : Action (Host ω) TransportError Unit := do
  let parent ← Action.lift (Outcome.okOr .invalidEndpoint listener.path.parent)
  let found ← privateDirectory os parent listener.uid
  if found ≠ listener.parent then
    Action.throw .accessPolicy
  else
    pure ()

/-- The `match` of `cleanup`: a file that is gone need not be removed. -/
def removeSocket (listener : UnixListener) : Action (Host ω) TransportError Unit := do
  let answer ← Host.record (os.symlinkMetadata listener.path) (.symlinkMetadata listener.path)
  match answer with
  | .ok metadata =>
      if metadata.kind ≠ .socket ∨ FileIdentity.of metadata ≠ listener.socket ∨
          metadata.uid ≠ listener.uid then
        Action.throw .accessPolicy
      else
        Host.call (os.removeFile listener.path) (.removeFile listener.path)
  | .error .notFound => pure ()
  | .error .other => Action.throw .io

/-- `drop`, also of `inner` alone. -/
def drop (s : Host ω × UnixListener) : Host ω × UnixListener :=
  match s.2.inner with
  | some inner => (s.1.close os inner, { s.2 with inner := none })
  | none => s

def onHost {α : Type} (x : UnixListener → Action (Host ω) TransportError α) :
    Action (Host ω × UnixListener) TransportError α := fun s =>
  ((x s.2 s.1).1, ((x s.2 s.1).2, s.2))

def cleanup : Action (Host ω × UnixListener) TransportError Unit := do
  let s ← Action.get
  if s.2.cleaned = true then
    pure ()
  else
    onHost (verifyParent os)
    onHost (removeSocket os)
    Action.modify (drop os)
    Action.modify fun s => (s.1, { s.2 with cleaned := true })

/-- The parent that `bind` was given. -/
def suppliedParent (path : Path) : Path :=
  (path.parent.filter fun value => value.components ≠ []).getD ⟨[.curDir]⟩

/-- The path is free. -/
def vacant (path : Path) : Action (Host ω) TransportError Unit := do
  let answer ← Host.record (os.symlinkMetadata path) (.symlinkMetadata path)
  match answer with
  | .ok _ => Action.throw .io
  | .error .notFound => pure ()
  | .error .other => Action.throw .io

def boundMetadata (path : Path) (uid : UInt32) : Action (Host ω) TransportError Metadata := do
  let metadata ← Host.call (os.symlinkMetadata path) (.symlinkMetadata path)
  if metadata.kind ≠ .socket ∨ metadata.uid ≠ uid then
    Action.throw .accessPolicy
  else
    pure metadata

/-- The result of the cleanup is ignored. -/
def restrict : Action (Host ω × UnixListener) TransportError Unit := do
  let answer ← onHost fun listener =>
    Host.record (os.setPermissions listener.path 0o600) (.setPermissions listener.path 0o600)
  match answer with
  | .error _ =>
      Action.modify fun s => (cleanup os s).2
      Action.throw .io
  | .ok () => onHost (verifyParent os)

/-- The listener is dropped unless `restrict` succeeds. -/
def restricted (listener : UnixListener) : Action (Host ω) TransportError UnixListener :=
  fun host =>
    match Action.onFailure (drop os) (restrict os) (host, listener) with
    | (.ok (), s) => (.ok s.2, s.1)
    | (.err e, s) => (.err e, s.1)
    | (.panic, s) => (.panic, s.1)
    | (.dropped, s) => (.dropped, s.1)

def establish (uid : UInt32) (parent : FileIdentity) (path : Path) :
    Action (Host ω) TransportError UnixListener := do
  let inner ← Host.call (os.bind path) (.bind path)
  let metadata ← Action.onFailure (Host.close os inner) (boundMetadata os path uid)
  restricted os
    { inner := some inner, path := path, parent := parent, socket := FileIdentity.of metadata,
      uid := uid, cleaned := false }

def bind (path : Path) : Action (Host ω) TransportError UnixListener := do
  let name ← Action.lift (Outcome.okOr .invalidEndpoint path.fileName)
  let host ← Action.get
  let uid := os.geteuid host.world
  let originalParent ← privateDirectory os (suppliedParent path) uid
  let parentPath ← Host.call (os.canonicalize (suppliedParent path))
    (.canonicalize (suppliedParent path))
  let parent ← privateDirectory os parentPath uid
  if parent ≠ originalParent then
    Action.throw .accessPolicy
  else
    vacant os (parentPath.join name)
    establish os uid parent (parentPath.join name)

/-- `u32::try_from`. -/
def processId (pid : Int32) : Option UInt32 := if 0 ≤ pid then some pid.toUInt32 else none

def authorized (uid : UInt32) (stream : Handle) : Action (Host ω) TransportError Accepted := do
  let credentials ← Host.call (os.peerCred stream) (.peerCred stream)
  Action.lift (authorizeUid credentials.uid uid)
  pure ⟨stream, some (.unix credentials.uid credentials.gid (credentials.pid.bind processId))⟩

def accept (listener : UnixListener) : Action (Host ω) TransportError Accepted := do
  let inner ← Action.lift (Outcome.okOr .invalidEndpoint listener.inner)
  let answer ← Host.record (os.accept inner) (.accept inner)
  match answer with
  | none => Action.lift .dropped
  | some (.error _) => Action.throw .io
  | some (.ok stream) =>
      Action.onFailure (Host.close os stream) (authorized os listener.uid stream)

end UnixListener

/-! ## §4  What its owner does -/

inductive ListenerStep : Type where
  | accept
  | cleanup
deriving DecidableEq

/-- A listener in use, and the streams that it has delivered. -/
structure Hosting (ω : Type) : Type where
  host : Host ω
  listener : UnixListener
  accepted : List UnixListener.Accepted

namespace Hosting

def step (s : Hosting ω) : ListenerStep → Hosting ω
  | .accept =>
      let r := UnixListener.accept os s.listener s.host
      match r.1 with
      | .ok accepted => { s with host := r.2, accepted := s.accepted ++ [accepted] }
      | .err _ | .panic | .dropped => { s with host := r.2 }
  | .cleanup =>
      let r := UnixListener.cleanup os (s.host, s.listener)
      { s with host := r.2.1, listener := r.2.2 }

def run (steps : List ListenerStep) (s : Hosting ω) : Hosting ω := steps.foldl (step os) s

end Hosting

/-- From `bind` to `drop`. -/
def UnixListener.life (path : Path) (steps : List ListenerStep) (world : ω) :
    Host ω × List UnixListener.Accepted :=
  match UnixListener.bind os path ⟨world, []⟩ with
  | (.ok listener, host) =>
      let s := Hosting.run os steps ⟨host, listener, []⟩
      ((UnixListener.drop os (s.host, s.listener)).1, s.accepted)
  | (.err _, host) | (.panic, host) | (.dropped, host) => (host, [])

end Operations

end Assuan
