import Assuan.Foundation.Runs
import Assuan.Transport.Unix
import Mathlib.Data.Multiset.AddSub

/-!
# What a listener touches

Every call that changes something is warranted by the calls right before it, whatever
the system answers and whatever happens in between: a socket is bound at a free path in
a private directory, only the own socket is restricted or removed, and every descriptor
is closed or delivered.
-/

namespace Assuan

/-! ## §1  Warrants -/

/-- What `private_directory` asks for. -/
structure Metadata.PrivateTo (uid : UInt32) (metadata : Metadata) : Prop where
  directory : metadata.kind = .directory
  owner : metadata.uid = uid
  mode : metadata.mode &&& 0o077 = 0

/-- A socket of the user. -/
structure Metadata.SocketOf (uid : UInt32) (metadata : Metadata) : Prop where
  socket : metadata.kind = .socket
  owner : metadata.uid = uid

def SystemCall.opens : SystemCall → Option Handle
  | .bind _ answer => answer.toOption
  | .accept _ answer => answer.bind Except.toOption
  | .symlinkMetadata _ _ | .canonicalize _ _ | .setPermissions _ _ _ | .removeFile _ _
  | .peerCred _ _ | .close _ => none

def SystemCall.closes : SystemCall → Option Handle
  | .close handle => some handle
  | .symlinkMetadata _ _ | .canonicalize _ _ | .bind _ _ | .setPermissions _ _ _
  | .removeFile _ _ | .accept _ _ | .peerCred _ _ => none

def SystemCall.opened (calls : List SystemCall) : Multiset Handle := calls.filterMap opens

def SystemCall.closed (calls : List SystemCall) : Multiset Handle := calls.filterMap closes

open SystemCall

/-- The handle is open. -/
def StillOpen (calls : List SystemCall) (handle : Handle) : Prop :=
  closed calls + {handle} ≤ opened calls

/-- What `bind` was told: of the parent as it was supplied, of its canonical path, and
of the socket. -/
structure Evidence : Type where
  parent : Path
  name : Bytes
  supplied : Metadata
  directory : Metadata
  handle : Handle
  socket : Metadata

namespace Evidence

variable (e : Evidence)

def path : Path := e.parent.join e.name

def lookups (path : Path) : List SystemCall :=
  [.symlinkMetadata (UnixListener.suppliedParent path) (.ok e.supplied),
    .canonicalize (UnixListener.suppliedParent path) (.ok e.parent),
    .symlinkMetadata e.parent (.ok e.directory),
    .symlinkMetadata e.path (.error .notFound)]

def calls (path : Path) : List SystemCall :=
  e.lookups path ++ [.bind e.path (.ok e.handle), .symlinkMetadata e.path (.ok e.socket)]

/-- The parent is private and has not been replaced. -/
structure Safe (uid : UInt32) (path : Path) : Prop where
  named : path.fileName = some e.name
  supplied : e.supplied.PrivateTo uid
  directory : e.directory.PrivateTo uid
  same : FileIdentity.of e.directory = FileIdentity.of e.supplied

/-- The same parent, and the same socket. -/
structure Again (uid : UInt32) (parent found : Metadata) : Prop where
  directory : parent.PrivateTo uid
  parent : FileIdentity.of parent = FileIdentity.of e.directory
  socket : found.SocketOf uid
  identity : FileIdentity.of found = FileIdentity.of e.socket

end Evidence

/-- Which calls may follow the calls so far, for a listener of `uid` that was asked for
at `path`. -/
inductive Allowed (uid : UInt32) (path : Path) : List SystemCall → SystemCall → Prop
  | looks (calls : List SystemCall) (p : Path) (answer : Except ErrorKind Metadata) :
      Allowed uid path calls (.symlinkMetadata p answer)
  | resolves (calls : List SystemCall) (p : Path) (answer : Except ErrorKind Path) :
      Allowed uid path calls (.canonicalize p answer)
  | binds {e : Evidence} (answer : Except ErrorKind Handle) : e.Safe uid path →
      Allowed uid path (e.lookups path) (.bind e.path answer)
  | restricts {e : Evidence} (answer : Except ErrorKind Unit) : e.socket.SocketOf uid →
      Allowed uid path (e.calls path) (.setPermissions e.path 0o600 answer)
  | removes {e : Evidence} (between : List SystemCall) {parent found : Metadata}
      (answer : Except ErrorKind Unit) : (∀ p, .removeFile p (.ok ()) ∉ between) →
      e.Again uid parent found →
      Allowed uid path
        (e.calls path ++ between ++
          [.symlinkMetadata e.parent (.ok parent), .symlinkMetadata e.path (.ok found)])
        (.removeFile e.path answer)
  | accepts {e : Evidence} (between : List SystemCall)
      (answer : Option (Except ErrorKind Handle)) : StillOpen (e.calls path ++ between) e.handle →
      Allowed uid path (e.calls path ++ between) (.accept e.handle answer)
  | asks (calls : List SystemCall) (inner stream : Handle)
      (answer : Except ErrorKind Credentials) :
      Allowed uid path (calls ++ [.accept inner (some (.ok stream))]) (.peerCred stream answer)
  | closes {calls : List SystemCall} {handle : Handle} : StillOpen calls handle →
      Allowed uid path calls (.close handle)

/-! ## §2  Single operations -/

section Operations

open Assuan.Action

variable {ω : Type} (os : Os ω)

theorem Host.call_post {α : Type} (f : ω → Except ErrorKind α × ω)
    (entry : Except ErrorKind α → SystemCall) (host : Host ω) :
    Post (Host.call f entry) host fun o host' => ∃ answer world,
      host' = ⟨world, host.calls ++ [entry answer]⟩ ∧ ∀ a, o = .ok a ↔ answer = .ok a := by
  unfold Host.call
  apply Post.bind_ok (Host.record_apply f entry host)
  refine ⟨_, _, rfl, ?_⟩
  intro a
  rcases (f host.world).1 with e | b
  · simp [Host.answered]
  · simp [Host.answered]

/-- A call whose answer has to pass a test. -/
theorem Host.tested_post {α β : Type} (f : ω → Except ErrorKind α × ω)
    (entry : Except ErrorKind α → SystemCall) (bad : α → Prop) [DecidablePred bad]
    (e : TransportError) (result : α → β) (host : Host ω) :
    Post (do
      let a ← Host.call f entry
      if bad a then Action.throw e else pure (result a)) host fun o host' => ∃ answer world,
        host' = ⟨world, host.calls ++ [entry answer]⟩ ∧
        ∀ b, o = .ok b → ∃ a, answer = .ok a ∧ ¬ bad a ∧ result a = b := by
  apply Post.bind (Host.call_post f entry host)
  · rintro a _ ⟨answer, world, rfl, hok⟩
    refine Post.intro ?_
    intro o host' hrun
    split at hrun
    · obtain ⟨rfl, rfl⟩ := Prod.mk.inj hrun
      exact ⟨answer, world, rfl, by simp⟩
    · next hpassed =>
        obtain ⟨rfl, rfl⟩ := Prod.mk.inj hrun
        refine ⟨answer, world, rfl, ?_⟩
        rintro _ ⟨⟩
        exact ⟨a, (hok a).mp rfl, hpassed, rfl⟩
  · rintro o _ ho ⟨answer, world, rfl, -⟩
    exact ⟨answer, world, rfl, fun b hok => absurd hok (ho.relabel b)⟩

theorem privateDirectory_post (p : Path) (uid : UInt32) (host : Host ω) :
    Post (privateDirectory os p uid) host fun o host' => ∃ answer world,
      host' = ⟨world, host.calls ++ [.symlinkMetadata p answer]⟩ ∧
      ∀ identity, o = .ok identity → ∃ metadata, answer = .ok metadata ∧
        metadata.PrivateTo uid ∧ FileIdentity.of metadata = identity := by
  apply Post.mono (Host.tested_post _ _ _ _ _ host)
  rintro o _ ⟨answer, world, rfl, hok⟩
  refine ⟨answer, world, rfl, ?_⟩
  intro identity hidentity
  obtain ⟨metadata, hanswer, hprivate, hsame⟩ := hok identity hidentity
  simp only [not_or, not_not] at hprivate
  exact ⟨metadata, hanswer, ⟨hprivate.1, hprivate.2.2.1, hprivate.2.2.2⟩, hsame⟩

namespace UnixListener

theorem verifyParent_post {listener : UnixListener} {parent : Path}
    (hparent : listener.path.parent = some parent) (host : Host ω) :
    Post (verifyParent os listener) host fun o host' => ∃ answer world,
      host' = ⟨world, host.calls ++ [.symlinkMetadata parent answer]⟩ ∧
      (o = .ok () → ∃ metadata, answer = .ok metadata ∧ metadata.PrivateTo listener.uid ∧
        FileIdentity.of metadata = listener.parent) := by
  unfold verifyParent
  rw [hparent]
  apply Post.bind_ok (lift_apply (.ok parent) host)
  apply Post.bind (privateDirectory_post os parent listener.uid host)
  · rintro identity _ ⟨answer, world, rfl, hok⟩
    refine Post.intro ?_
    intro o host' hrun
    split at hrun
    · obtain ⟨rfl, rfl⟩ := Prod.mk.inj hrun
      exact ⟨answer, world, rfl, by simp⟩
    · next hsame =>
        obtain ⟨rfl, rfl⟩ := Prod.mk.inj hrun
        refine ⟨answer, world, rfl, fun _ => ?_⟩
        obtain ⟨metadata, hanswer, hprivate, hidentity⟩ := hok identity rfl
        exact ⟨metadata, hanswer, hprivate, hidentity.trans (not_not.mp hsame)⟩
  · rintro o _ ho ⟨answer, world, rfl, -⟩
    exact ⟨answer, world, rfl, fun hok => absurd hok (ho.relabel ())⟩

/-- What `removeSocket` comes to. -/
inductive Removed (listener : UnixListener) (host : Host ω) (o : Outcome TransportError Unit) :
    Host ω → Prop
  | kept (answer : Except ErrorKind Metadata) (world : ω) : Removed listener host o
      ⟨world, host.calls ++ [.symlinkMetadata listener.path answer]⟩
  | removed {metadata : Metadata} {answer : Except ErrorKind Unit} (world : ω) :
      metadata.SocketOf listener.uid → FileIdentity.of metadata = listener.socket →
      (o.Failed → answer ≠ .ok ()) → Removed listener host o
        ⟨world, host.calls ++ [.symlinkMetadata listener.path (.ok metadata)] ++
          [.removeFile listener.path answer]⟩

theorem removeSocket_post (listener : UnixListener) (host : Host ω) :
    Post (removeSocket os listener) host (Removed listener host) := by
  unfold removeSocket
  apply Post.bind_ok (Host.record_apply _ _ host)
  rcases hanswer : (os.symlinkMetadata listener.path host.world).1 with e | metadata
  · cases e with
    | notFound => exact .kept _ _
    | other => exact .kept _ _
  · refine Post.intro ?_
    intro o host' hrun
    dsimp only at hrun
    split at hrun
    · obtain ⟨rfl, rfl⟩ := Prod.mk.inj hrun
      exact .kept _ _
    · next hown =>
        simp only [not_or, not_not] at hown
        obtain ⟨answer, world, rfl, hok⟩ := (Host.call_post _ _ _).elim hrun
        refine .removed world ⟨hown.1, hown.2.2⟩ hown.2.1 ?_
        rintro hfailed rfl
        exact hfailed () ((hok ()).mpr rfl)

end UnixListener

end Operations

/-! ## §3  What every operation keeps -/

theorem opened_append (calls calls' : List SystemCall) :
    opened (calls ++ calls') = opened calls + opened calls' := by
  rw [opened, List.filterMap_append, ← Multiset.coe_add]
  rfl

theorem closed_append (calls calls' : List SystemCall) :
    closed (calls ++ calls') = closed calls + closed calls' := by
  rw [closed, List.filterMap_append, ← Multiset.coe_add]
  rfl

def UnixListener.held (listener : UnixListener) : Multiset Handle := listener.inner.toList

/-- The listener is what `bind` has seen. -/
structure Evidence.Backs (e : Evidence) (uid : UInt32) (listener : UnixListener) : Prop where
  owner : listener.uid = uid
  path : listener.path = e.path
  parent : listener.parent = FileIdentity.of e.directory
  socket : listener.socket = FileIdentity.of e.socket
  inner : ∀ handle, listener.inner = some handle → handle = e.handle

theorem Evidence.Backs.path_parent {e : Evidence} {uid : UInt32} {listener : UnixListener}
    (h : e.Backs uid listener) : listener.path.parent = some e.parent := by
  rw [h.path]
  exact Path.parent_join e.parent e.name

/-- The calls so far, with the streams that are open. If the socket is not `gone`, it was
not removed. -/
structure Guarded (uid : UInt32) (path : Path) (listener : UnixListener)
    (streams : Multiset Handle) (gone : Bool) (calls : List SystemCall) : Prop where
  warranted : Warranted (Allowed uid path) calls
  bound : ∃ (e : Evidence) (between : List SystemCall),
    e.Backs uid listener ∧ calls = e.calls path ++ between ∧
    (gone = false → ∀ p, .removeFile p (.ok ()) ∉ between)
  ledger : opened calls = closed calls + (streams + listener.held)
  done : listener.cleaned = true → listener.inner = none

section Guarded

open Assuan.Action

variable {ω : Type} (os : Os ω) {uid : UInt32} {path : Path} {listener listener' : UnixListener}
  {streams streams' : Multiset Handle} {gone : Bool} {calls : List SystemCall}

/-- One more call. -/
theorem Guarded.snoc (h : Guarded uid path listener streams gone calls) {call : SystemCall}
    (hallowed : Allowed uid path calls call) (gone' : Bool)
    (hgone : gone' = false → gone = false ∧ ∀ p, call ≠ .removeFile p (.ok ()))
    (hbacks : ∀ e : Evidence, e.Backs uid listener → e.Backs uid listener')
    (hdone : listener'.cleaned = true → listener'.inner = none)
    (hledger : opened [call] + (streams + listener.held) =
      closed [call] + (streams' + listener'.held)) :
    Guarded uid path listener' streams' gone' (calls ++ [call]) := by
  obtain ⟨e, between, hback, rfl, hbetween⟩ := h.bound
  refine ⟨h.warranted.snoc hallowed, ⟨e, between ++ [call], hbacks e hback, ?_, ?_⟩, ?_, hdone⟩
  · rw [List.append_assoc]
  · rintro hfalse p hmem
    obtain ⟨hfalse', hcall⟩ := hgone hfalse
    rcases List.mem_append.mp hmem with hmem | hmem
    · exact hbetween hfalse' p hmem
    · exact hcall p (List.mem_singleton.mp hmem).symm
  · calc opened (e.calls path ++ between ++ [call])
        = closed (e.calls path ++ between) + (streams + listener.held) + opened [call] := by
          rw [opened_append, h.ledger]
      _ = closed (e.calls path ++ between) + (opened [call] + (streams + listener.held)) := by
          rw [add_assoc, add_comm (opened [call])]
      _ = closed (e.calls path ++ between ++ [call]) + (streams' + listener'.held) := by
          rw [hledger, closed_append (e.calls path ++ between), add_assoc]

/-- A call that only looks, or one that fails. -/
theorem Guarded.passes (h : Guarded uid path listener streams gone calls) {call : SystemCall}
    (hallowed : Allowed uid path calls call) (hopens : call.opens = none)
    (hcloses : call.closes = none) (hcall : ∀ p, call ≠ .removeFile p (.ok ())) :
    Guarded uid path listener streams gone (calls ++ [call]) := by
  refine h.snoc hallowed gone (fun hgone => ⟨hgone, hcall⟩) (fun _ hback => hback) h.done ?_
  simp [opened, closed, hopens, hcloses]

theorem Guarded.looks (h : Guarded uid path listener streams gone calls) (p : Path)
    (answer : Except ErrorKind Metadata) :
    Guarded uid path listener streams gone (calls ++ [.symlinkMetadata p answer]) :=
  h.passes (.looks calls p answer) rfl rfl (by simp)

theorem Guarded.holds (h : Guarded uid path listener streams gone calls) {handle : Handle}
    (hheld : handle ∈ streams + listener.held) : StillOpen calls handle := by
  rw [StillOpen, h.ledger]
  exact Multiset.add_le_add_left (Multiset.singleton_le.mpr hheld)

namespace UnixListener

theorem drop_kept {s : Host ω × UnixListener} (h : Guarded uid path s.2 streams gone s.1.calls) :
    Guarded uid path (drop os s).2 streams gone (drop os s).1.calls ∧
      (drop os s).2.inner = none := by
  obtain ⟨host, listener⟩ := s
  cases hinner : listener.inner with
  | none =>
      have hdrop : drop os (host, listener) = (host, listener) := by simp [drop, hinner]
      rw [hdrop]
      exact ⟨h, hinner⟩
  | some inner =>
      have hdrop : drop os (host, listener) =
          (host.close os inner, { listener with inner := none }) := by simp [drop, hinner]
      rw [hdrop]
      have hheld : listener.held = {inner} := by
        rw [held, hinner]
        rfl
      refine ⟨?_, rfl⟩
      refine h.snoc (.closes (h.holds ?_)) gone (fun hgone => ⟨hgone, by simp⟩) ?_ (fun _ => rfl) ?_
      · rw [hheld]
        simp
      · rintro e ⟨howner, hpath, hparent, hsocket, -⟩
        exact ⟨howner, hpath, hparent, hsocket, by simp⟩
      · rw [hheld]
        show 0 + (streams + {inner}) = {inner} + (streams + 0)
        rw [zero_add, add_zero, add_comm]

theorem onHost_post {α : Type} {x : UnixListener → Action (Host ω) TransportError α}
    {host : Host ω} {Q : Outcome TransportError α → Host ω → Prop} (h : Post (x listener) host Q) :
    Post (onHost x) (host, listener) fun o s' => s'.2 = listener ∧ Q o s'.1 := ⟨rfl, h⟩

/-- `removeSocket` right after the parent was seen. -/
theorem removeSocket_kept {host : Host ω} {e : Evidence} {between : List SystemCall}
    {parent : Metadata} (hback : e.Backs uid listener)
    (hcalls : host.calls = e.calls path ++ between ++ [.symlinkMetadata e.parent (.ok parent)])
    (hbetween : ∀ p, .removeFile p (.ok ()) ∉ between) (hprivate : parent.PrivateTo uid)
    (hparent : FileIdentity.of parent = listener.parent)
    (h : Guarded uid path listener streams false host.calls) :
    Post (removeSocket os listener) host fun o host' =>
      Guarded uid path listener streams true host'.calls ∧
      (o.Failed → Guarded uid path listener streams false host'.calls) := by
  have weaken : ∀ {calls : List SystemCall}, Guarded uid path listener streams false calls →
      Guarded uid path listener streams true calls := by
    rintro calls ⟨hwarranted, ⟨e, between, hback, hsplit, -⟩, hledger, hdone⟩
    exact ⟨hwarranted, ⟨e, between, hback, hsplit, by simp⟩, hledger, hdone⟩
  apply Post.mono (removeSocket_post os listener host)
  intro o host' hremoved
  cases hremoved with
  | kept answer world =>
      have hkept := h.looks listener.path answer
      exact ⟨weaken hkept, fun _ => hkept⟩
  | @removed metadata answer world hown hidentity hfailed =>
      have hagain : e.Again uid parent metadata := by
        refine ⟨hprivate, hparent.trans hback.parent, ?_, hidentity.trans hback.socket⟩
        rw [← hback.owner]
        exact hown
      have hallowed : Allowed uid path
          (host.calls ++ [.symlinkMetadata listener.path (.ok metadata)])
          (.removeFile listener.path answer) := by
        rw [hcalls, hback.path, List.append_assoc]
        exact .removes between answer hbetween hagain
      have hlooked := h.looks listener.path (.ok metadata)
      refine ⟨hlooked.snoc hallowed true (by simp) (fun _ hback => hback) h.done rfl, ?_⟩
      intro ho
      refine hlooked.passes hallowed rfl rfl ?_
      rintro p hcall
      obtain ⟨-, rfl⟩ := SystemCall.removeFile.inj hcall
      exact hfailed ho rfl

/-- The end of `cleanup`. -/
theorem settle_kept {s : Host ω × UnixListener} (h : Guarded uid path s.2 streams true s.1.calls) :
    Post (do
      Action.modify (drop os)
      Action.modify fun s => (s.1, { s.2 with cleaned := true }) :
        Action (Host ω × UnixListener) TransportError Unit) s fun _ s' =>
      Guarded uid path s'.2 streams s'.2.cleaned s'.1.calls ∧ s'.2.cleaned = true := by
  obtain ⟨⟨hwarranted, ⟨e, between, hback, hsplit, -⟩, hledger, -⟩, hinner⟩ := drop_kept os h
  apply Post.bind_ok (modify_apply _ _)
  obtain ⟨howner, hpath, hparent, hsocket, hhandle⟩ := hback
  exact ⟨⟨hwarranted, ⟨e, between, ⟨howner, hpath, hparent, hsocket, hhandle⟩, hsplit, by simp⟩,
    hledger, fun _ => hinner⟩, rfl⟩

theorem cleanup_kept {s : Host ω × UnixListener}
    (h : Guarded uid path s.2 streams s.2.cleaned s.1.calls) :
    Post (cleanup os) s fun o s' => Guarded uid path s'.2 streams s'.2.cleaned s'.1.calls ∧
      (o = .ok () → s'.2.cleaned = true) := by
  obtain ⟨host, listener⟩ := s
  unfold cleanup
  apply Post.get_bind
  by_cases hcleaned : listener.cleaned = true
  · rw [if_pos hcleaned]
    exact ⟨h, fun _ => hcleaned⟩
  rw [if_neg hcleaned]
  have hopen : listener.cleaned = false := by simpa using hcleaned
  obtain ⟨e, between, hback, hcalls, hbetween⟩ := h.bound
  dsimp only at h hcalls hback
  rw [hopen] at h
  apply Post.bind (onHost_post (verifyParent_post os hback.path_parent host))
  · rintro _ ⟨host₁, listener₁⟩ ⟨hsame, answer, world, rfl, hok⟩
    obtain rfl : listener₁ = listener := hsame
    obtain ⟨parent, rfl, hprivate, hidentity⟩ := hok rfl
    rw [hback.owner] at hprivate
    apply Post.bind (onHost_post (removeSocket_kept os hback (by rw [hcalls])
      (hbetween hopen) hprivate hidentity (h.looks e.parent (.ok parent))))
    · rintro _ ⟨host₂, listener₂⟩ ⟨hsame, hgone, -⟩
      obtain rfl : listener₂ = listener₁ := hsame
      apply Post.mono (settle_kept os (s := (host₂, listener₂)) hgone)
      rintro o s' ⟨hkept, hdone⟩
      exact ⟨hkept, fun _ => hdone⟩
    · rintro o ⟨host₂, listener₂⟩ ho ⟨hsame, -, hkept⟩
      obtain rfl : listener₂ = listener₁ := hsame
      refine ⟨?_, fun hok => absurd hok (ho.relabel ())⟩
      dsimp only
      rw [hopen]
      exact hkept ho
  · rintro o ⟨host₁, listener₁⟩ ho ⟨hsame, answer, world, rfl, -⟩
    obtain rfl : listener₁ = listener := hsame
    refine ⟨?_, fun hok => absurd hok (ho.relabel ())⟩
    dsimp only
    rw [hopen]
    exact h.looks e.parent answer

/-- Who is at the other end of a delivered stream. -/
def Peers (uid : UInt32) (accepted : Accepted) (calls : List SystemCall) : Prop :=
  ∃ credentials, .peerCred accepted.stream (.ok credentials) ∈ calls ∧ credentials.uid = uid ∧
    accepted.peer =
      some (.unix credentials.uid credentials.gid (credentials.pid.bind processId))

theorem authorized_post (uid : UInt32) (stream : Handle) (host : Host ω) :
    Post (authorized os uid stream) host fun o host' => ∃ answer world,
      host' = ⟨world, host.calls ++ [.peerCred stream answer]⟩ ∧
      ∀ accepted, o = .ok accepted → accepted.stream = stream ∧ ∃ credentials,
        answer = .ok credentials ∧ credentials.uid = uid ∧ accepted.peer =
          some (.unix credentials.uid credentials.gid (credentials.pid.bind processId)) := by
  unfold authorized
  apply Post.bind (Host.call_post _ _ host)
  · rintro credentials _ ⟨answer, world, rfl, hok⟩
    have hanswer := (hok credentials).mp rfl
    by_cases howner : credentials.uid = uid
    · have hpass : authorizeUid credentials.uid uid = .ok () := if_neg (not_not.mpr howner)
      rw [hpass]
      refine ⟨answer, world, rfl, ?_⟩
      rintro _ ⟨⟩
      exact ⟨rfl, credentials, hanswer, howner, rfl⟩
    · have hrefuse : authorizeUid credentials.uid uid = .err .accessPolicy := if_pos howner
      rw [hrefuse]
      apply Post.bind_failed (lift_apply _ _) (by simp)
      exact ⟨answer, world, rfl, by simp [Outcome.relabel]⟩
  · rintro o _ ho ⟨answer, world, rfl, -⟩
    exact ⟨answer, world, rfl, fun accepted hok => absurd hok (ho.relabel accepted)⟩

theorem authorized_kept {host : Host ω} {inner stream : Handle} {before : List SystemCall}
    (howner : listener.uid = uid)
    (hcalls : host.calls = before ++ [.accept inner (some (.ok stream))])
    (h : Guarded uid path listener ({stream} + streams) gone host.calls) :
    Post (Action.onFailure (Host.close os stream) (authorized os listener.uid stream)) host
      fun o host' => (∀ accepted, o = .ok accepted → accepted.stream = stream ∧
        Guarded uid path listener ({stream} + streams) gone host'.calls ∧
        Peers uid accepted host'.calls) ∧
      (o.Failed → Guarded uid path listener streams gone host'.calls) := by
  have hasked : ∀ answer, Guarded uid path listener ({stream} + streams) gone
      (host.calls ++ [.peerCred stream answer]) := by
    intro answer
    refine h.passes ?_ rfl rfl (by simp)
    rw [hcalls]
    exact .asks before inner stream answer
  have hclosed : ∀ answer, Guarded uid path listener streams gone
      (host.calls ++ [.peerCred stream answer] ++ [.close stream]) := by
    intro answer
    refine (hasked answer).snoc (.closes ((hasked answer).holds (by simp))) gone
      (fun hgone => ⟨hgone, by simp⟩) (fun _ hback => hback) h.done ?_
    show 0 + ({stream} + streams + listener.held) = {stream} + (streams + listener.held)
    rw [zero_add, add_assoc]
  apply Post.onFailure (authorized_post os listener.uid stream host)
  · rintro accepted _ ⟨answer, world, rfl, hok⟩
    refine ⟨?_, fun ho => absurd ho (by simp)⟩
    rintro _ ⟨⟩
    obtain ⟨hstream, credentials, rfl, huid, hpeer⟩ := hok accepted rfl
    refine ⟨hstream, hasked (.ok credentials), credentials, ?_, huid.trans howner, hpeer⟩
    rw [hstream]
    simp
  · rintro o _ ho ⟨answer, world, rfl, -⟩
    exact ⟨fun accepted hok => absurd hok (ho accepted), fun _ => hclosed answer⟩

theorem accept_kept {host : Host ω} (h : Guarded uid path listener streams gone host.calls) :
    Post (accept os listener) host fun o host' =>
      (∀ accepted, o = .ok accepted →
        Guarded uid path listener ({accepted.stream} + streams) gone host'.calls ∧
        Peers uid accepted host'.calls) ∧
      (o.Failed → Guarded uid path listener streams gone host'.calls) := by
  unfold accept
  cases hinner : listener.inner with
  | none =>
      have hrefused : (lift (Outcome.okOr .invalidEndpoint none) :
          Action (Host ω) TransportError Handle) host = (.err .invalidEndpoint, host) := rfl
      apply Post.bind_failed hrefused (by simp)
      exact ⟨by simp [Outcome.relabel], fun _ => h⟩
  | some inner =>
      apply Post.bind_ok (lift_apply (.ok inner) host)
      apply Post.bind_ok (Host.record_apply _ _ host)
      obtain ⟨e, between, hback, hcalls, -⟩ := h.bound
      have hallowed : ∀ answer, Allowed uid path host.calls (.accept inner answer) := by
        intro answer
        have hheld : StillOpen host.calls inner := by
          apply h.holds
          rw [held, hinner]
          simp
        obtain rfl := hback.inner inner hinner
        rw [hcalls] at hheld ⊢
        exact .accepts between answer hheld
      have hpasses : ∀ answer, (SystemCall.accept inner answer).opens = none →
          Guarded uid path listener streams gone (host.calls ++ [.accept inner answer]) :=
        fun answer hopens => h.passes (hallowed answer) hopens rfl (by simp)
      rcases hanswer : (os.accept inner host.world).1 with _ | e | stream
      · exact ⟨by simp, fun _ => hpasses none rfl⟩
      · exact ⟨by simp, fun _ => hpasses (some (.error e)) rfl⟩
      · have hopened : Guarded uid path listener ({stream} + streams) gone
            (host.calls ++ [.accept inner (some (.ok stream))]) := by
          refine h.snoc (hallowed _) gone (fun hgone => ⟨hgone, by simp⟩) (fun _ hback => hback)
            h.done ?_
          show {stream} + (streams + listener.held) = 0 + ({stream} + streams + listener.held)
          rw [zero_add, add_assoc]
        apply Post.mono (authorized_kept os hback.owner rfl hopened)
        rintro o host' ⟨hok, hfailed⟩
        refine ⟨?_, hfailed⟩
        rintro accepted rfl
        obtain ⟨rfl, hkept, hpeer⟩ := hok accepted rfl
        exact ⟨hkept, hpeer⟩

/-! ### Binding -/

/-- Before there is a socket. -/
structure Opening (uid : UInt32) (path : Path) (calls : List SystemCall) : Prop where
  warranted : Warranted (Allowed uid path) calls
  ledger : opened calls = closed calls

theorem Opening.passes (h : Opening uid path calls) {call : SystemCall}
    (hallowed : Allowed uid path calls call) (hopens : call.opens = none)
    (hcloses : call.closes = none) : Opening uid path (calls ++ [call]) := by
  refine ⟨h.warranted.snoc hallowed, ?_⟩
  rw [opened_append, closed_append, h.ledger]
  simp [opened, closed, hopens, hcloses]

theorem restrict_kept {host : Host ω} {e : Evidence} (hback : e.Backs uid listener)
    (hsocket : e.socket.SocketOf uid) (hcalls : host.calls = e.calls path)
    (hcleaned : listener.cleaned = false)
    (h : Guarded uid path listener 0 false host.calls) :
    Post (restrict os) (host, listener) fun _ s' =>
      Guarded uid path s'.2 0 s'.2.cleaned s'.1.calls := by
  unfold restrict
  have hcall : onHost (fun listener => Host.record (os.setPermissions listener.path 0o600)
      (.setPermissions listener.path 0o600)) (host, listener) =
      (.ok (os.setPermissions listener.path 0o600 host.world).1,
        (⟨(os.setPermissions listener.path 0o600 host.world).2, host.calls ++
          [.setPermissions listener.path 0o600
            (os.setPermissions listener.path 0o600 host.world).1]⟩, listener)) := rfl
  apply Post.bind_ok hcall
  have hset : ∀ answer, Guarded uid path listener 0 listener.cleaned
      (host.calls ++ [.setPermissions listener.path 0o600 answer]) := by
    intro answer
    rw [hcleaned]
    refine h.passes ?_ rfl rfl (by simp)
    rw [hcalls, hback.path]
    exact .restricts answer hsocket
  generalize os.setPermissions listener.path 0o600 host.world = result
  obtain ⟨answer, world⟩ := result
  cases answer with
  | error error =>
      apply Post.bind_ok (modify_apply _ _)
      exact (cleanup_kept os (s := (⟨world, _⟩, listener)) (hset (.error error))).1
  | ok _ =>
      apply Post.mono (onHost_post (verifyParent_post os hback.path_parent _))
      rintro o ⟨host', listener'⟩ ⟨hsame, answer, world', rfl, -⟩
      obtain rfl : listener' = listener := hsame
      exact (hset (.ok ())).looks e.parent answer

/-- The last part of `bind`, from the socket that was seen. -/
theorem restricted_kept {host : Host ω} {e : Evidence} (hback : e.Backs uid listener)
    (hsocket : e.socket.SocketOf uid) (hcalls : host.calls = e.calls path)
    (hcleaned : listener.cleaned = false)
    (h : Guarded uid path listener 0 false host.calls) :
    Post (restricted os listener) host fun o host' =>
      (∀ listener', o = .ok listener' →
        Guarded uid path listener' 0 listener'.cleaned host'.calls) ∧
      (o.Failed → Opening uid path host'.calls) := by
  refine Post.intro ?_
  intro o host' hrun
  have hkept := restrict_kept os hback hsocket hcalls hcleaned h
  rcases hrestrict : restrict os (host, listener) with ⟨o', s'⟩
  have hend := hkept.elim hrestrict
  unfold restricted at hrun
  rcases o'.ok_or_failed with ⟨_, rfl⟩ | ho'
  · rw [onFailure_ok hrestrict] at hrun
    obtain ⟨rfl, rfl⟩ := Prod.mk.inj hrun
    refine ⟨?_, fun ho => absurd ho (by simp)⟩
    rintro _ ⟨⟩
    exact hend
  · rw [onFailure_failed hrestrict ho'] at hrun
    obtain ⟨hdropped, hinner⟩ := drop_kept os hend
    have hopening : Opening uid path (drop os s').1.calls := by
      refine ⟨hdropped.warranted, ?_⟩
      rw [hdropped.ledger, held, hinner]
      simp
    have hfailed : (o'.relabel, (drop os s').1) = (o, host') := by
      cases o' with
      | ok _ => exact absurd ho' (by simp)
      | _ => exact hrun
    obtain ⟨rfl, rfl⟩ := Prod.mk.inj hfailed
    exact ⟨fun listener' hok => absurd hok (ho'.relabel listener'), fun _ => hopening⟩

theorem vacant_post (p : Path) (host : Host ω) :
    Post (vacant os p) host fun o host' => ∃ answer world,
      host' = ⟨world, host.calls ++ [.symlinkMetadata p answer]⟩ ∧
      (o = .ok () → answer = .error .notFound) := by
  unfold vacant
  apply Post.bind_ok (Host.record_apply _ _ host)
  rcases (os.symlinkMetadata p host.world).1 with error | metadata
  · cases error with
    | notFound => exact ⟨_, _, rfl, fun _ => rfl⟩
    | other => exact ⟨_, _, rfl, by simp⟩
  · exact ⟨_, _, rfl, by simp⟩

theorem boundMetadata_post (p : Path) (uid : UInt32) (host : Host ω) :
    Post (boundMetadata os p uid) host fun o host' => ∃ answer world,
      host' = ⟨world, host.calls ++ [.symlinkMetadata p answer]⟩ ∧
      ∀ metadata, o = .ok metadata → answer = .ok metadata ∧ metadata.SocketOf uid := by
  apply Post.mono (Host.tested_post _ _ _ _ _ host)
  rintro o _ ⟨answer, world, rfl, hok⟩
  refine ⟨answer, world, rfl, ?_⟩
  intro metadata hmetadata
  obtain ⟨_, hanswer, hown, rfl⟩ := hok metadata hmetadata
  simp only [not_or, not_not] at hown
  exact ⟨hanswer, hown.1, hown.2⟩

/-- What the parts of `bind` come to. -/
def Begun (uid : UInt32) (path : Path) (o : Outcome TransportError UnixListener)
    (host : Host ω) : Prop :=
  (∀ listener, o = .ok listener → Guarded uid path listener 0 listener.cleaned host.calls) ∧
    (o.Failed → Opening uid path host.calls)

theorem Begun.of_failed {α : Type} {o : Outcome TransportError α} {host : Host ω} (ho : o.Failed)
    (h : Opening uid path host.calls) : Begun uid path o.relabel host :=
  ⟨fun listener hok => absurd hok (ho.relabel listener), fun _ => h⟩

theorem establish_kept {host : Host ω} {e : Evidence} (hsafe : e.Safe uid path)
    (hcalls : host.calls = e.lookups path) (h : Opening uid path host.calls) :
    Post (establish os uid (FileIdentity.of e.directory) e.path) host (Begun uid path) := by
  have hallowed : ∀ answer, Allowed uid path host.calls (.bind e.path answer) := by
    intro answer
    rw [hcalls]
    exact .binds answer hsafe
  unfold establish
  apply Post.bind (Host.call_post _ _ host)
  · rintro inner _ ⟨answer, world, rfl, hok⟩
    obtain rfl := (hok inner).mp rfl
    have hlooked : ∀ answer, Warranted (Allowed uid path)
        (host.calls ++ [.bind e.path (.ok inner)] ++ [.symlinkMetadata e.path answer]) :=
      fun answer => (h.warranted.snoc (hallowed (.ok inner))).snoc (.looks _ _ answer)
    have hledger : ∀ answer,
        opened (host.calls ++ [.bind e.path (.ok inner)] ++ [.symlinkMetadata e.path answer]) =
          closed (host.calls ++ [.bind e.path (.ok inner)] ++
            [.symlinkMetadata e.path answer]) + {inner} := by
      intro answer
      have hbound : opened [.bind e.path (.ok inner)] = {inner} := rfl
      have hlook : opened [.symlinkMetadata e.path answer] = 0 := rfl
      have hopen : closed [.bind e.path (.ok inner)] = 0 := rfl
      have hopen' : closed [.symlinkMetadata e.path answer] = 0 := rfl
      rw [opened_append, opened_append, closed_append, closed_append, hbound, hlook, hopen, hopen',
        h.ledger]
      simp
    apply Post.bind (Post.onFailure (Q := fun o host' =>
      (∀ metadata, o = .ok metadata → metadata.SocketOf uid ∧ ∃ world, host' = ⟨world,
        host.calls ++ [.bind e.path (.ok inner)] ++ [.symlinkMetadata e.path (.ok metadata)]⟩) ∧
      (o.Failed → Opening uid path host'.calls)) (boundMetadata_post os e.path uid _) ?_ ?_)
    · rintro metadata host' ⟨hok, -⟩
      obtain ⟨hsocket, world', rfl⟩ := hok metadata rfl
      have hback : Evidence.Backs { e with handle := inner, socket := metadata } uid
          ⟨some inner, e.path, FileIdentity.of e.directory, FileIdentity.of metadata, uid, false⟩ :=
        ⟨rfl, rfl, rfl, rfl, fun handle h => (Option.some.inj h).symm⟩
      have hcalls' : host.calls ++ [.bind e.path (.ok inner)] ++
          [.symlinkMetadata e.path (.ok metadata)] =
          Evidence.calls { e with handle := inner, socket := metadata } path := by
        rw [hcalls, List.append_assoc]
        rfl
      refine restricted_kept os hback hsocket hcalls' rfl
        ⟨hlooked (.ok metadata), ⟨_, [], hback, ?_, by simp⟩, ?_, by simp⟩
      · rw [List.append_nil]
        exact hcalls'
      · exact (hledger (.ok metadata)).trans (by simp [held])
    · rintro o host' ho ⟨-, hopening⟩
      exact .of_failed ho (hopening ho)
    · rintro metadata _ ⟨answer, world', rfl, hok⟩
      obtain ⟨rfl, hsocket⟩ := hok metadata rfl
      refine ⟨?_, fun ho => absurd ho (by simp)⟩
      rintro _ ⟨⟩
      exact ⟨hsocket, world', rfl⟩
    · rintro o _ ho ⟨answer, world', rfl, -⟩
      refine ⟨fun metadata hok => absurd hok (ho metadata), fun _ => ?_⟩
      refine ⟨(hlooked answer).snoc (.closes ?_), ?_⟩
      · exact (hledger answer).ge
      · rw [Host.close, opened_append, closed_append, hledger answer]
        simp [opened, closed, SystemCall.opens, SystemCall.closes]
  · rintro o _ ho ⟨answer, world, rfl, hok⟩
    refine .of_failed ho (h.passes (hallowed answer) ?_ rfl)
    cases answer with
    | error e => rfl
    | ok inner => exact absurd ((hok inner).mpr rfl) (ho inner)

theorem bind_kept (path : Path) (world : ω) :
    Post (UnixListener.bind os path) ⟨world, []⟩ (Begun (os.geteuid world) path) := by
  have hnew : Opening (os.geteuid world) path [] := ⟨.nil, rfl⟩
  unfold UnixListener.bind
  cases hname : path.fileName with
  | none =>
      have hrefused : (lift (Outcome.okOr .invalidEndpoint none) :
          Action (Host ω) TransportError Bytes) ⟨world, []⟩ =
            (.err .invalidEndpoint, ⟨world, []⟩) := rfl
      apply Post.bind_failed hrefused (by simp)
      exact .of_failed (o := (.err .invalidEndpoint : Outcome TransportError Bytes)) (by simp) hnew
  | some name =>
      apply Post.bind_ok (lift_apply (.ok name) _)
      apply Post.get_bind
      apply Post.bind (privateDirectory_post os _ _ _)
      · rintro identity _ ⟨answer, world₁, rfl, hok⟩
        obtain ⟨supplied, rfl, hsupplied, rfl⟩ := hok identity rfl
        have h₁ := hnew.passes (.looks [] (suppliedParent path) (.ok supplied)) rfl rfl
        apply Post.bind (Host.call_post _ _ _)
        · rintro parent _ ⟨answer, world₂, rfl, hok⟩
          obtain rfl := (hok parent).mp rfl
          have h₂ := h₁.passes (.resolves _ (suppliedParent path) (.ok parent)) rfl rfl
          apply Post.bind (privateDirectory_post os _ _ _)
          · rintro identity _ ⟨answer, world₃, rfl, hok⟩
            obtain ⟨directory, rfl, hdirectory, rfl⟩ := hok identity rfl
            have h₃ := h₂.passes (.looks _ parent (.ok directory)) rfl rfl
            by_cases hsame : FileIdentity.of directory = FileIdentity.of supplied
            · rw [if_neg (not_not.mpr hsame)]
              apply Post.bind (vacant_post os (parent.join name) _)
              · rintro _ _ ⟨answer, world₄, rfl, hok⟩
                obtain rfl := hok rfl
                have h₄ := h₃.passes (.looks _ (parent.join name) (.error .notFound)) rfl rfl
                -- the socket is not known yet
                let e : Evidence := ⟨parent, name, supplied, directory, 0, supplied⟩
                have hsafe : e.Safe (os.geteuid world) path := ⟨hname, hsupplied, hdirectory, hsame⟩
                exact establish_kept os (e := e) hsafe rfl h₄
              · rintro o _ ho ⟨answer, world₄, rfl, -⟩
                exact .of_failed ho (h₃.passes (.looks _ (parent.join name) answer) rfl rfl)
            · rw [if_pos hsame]
              have hrefused : (Outcome.err .accessPolicy : Outcome TransportError Unit).Failed := by
                simp
              exact .of_failed hrefused h₃
          · rintro o _ ho ⟨answer, world₃, rfl, -⟩
            exact .of_failed ho (h₂.passes (.looks _ parent answer) rfl rfl)
        · rintro o _ ho ⟨answer, world₂, rfl, -⟩
          exact .of_failed ho (h₁.passes (.resolves _ (suppliedParent path) answer) rfl rfl)
      · rintro o _ ho ⟨answer, world₁, rfl, -⟩
        exact .of_failed ho (hnew.passes (.looks [] (suppliedParent path) answer) rfl rfl)

/-! ### Whole lives -/

/-- The calls only grow. -/
def Grows (before : List SystemCall) (host : Host ω) : Prop := before <+: host.calls

theorem grows_record {α : Type} (before : List SystemCall) (f : ω → α × ω)
    (entry : α → SystemCall) : Keeps (Grows before) (Host.record f entry) :=
  fun _ h => h.trans (List.prefix_append _ _)

theorem grows_call {α : Type} (before : List SystemCall) (f : ω → Except ErrorKind α × ω)
    (entry : Except ErrorKind α → SystemCall) : Keeps (Grows before) (Host.call f entry) :=
  (grows_record before f entry).bind fun _ => keeps_lift _

theorem grows_privateDirectory (before : List SystemCall) (p : Path) (uid : UInt32) :
    Keeps (Grows before) (privateDirectory os p uid) := by
  refine (grows_call before _ _).bind ?_
  intro metadata
  split
  · exact keeps_lift _
  · exact keeps_pure _

theorem grows_verifyParent (before : List SystemCall) (listener : UnixListener) :
    Keeps (Grows before) (verifyParent os listener) := by
  refine (keeps_lift _).bind ?_
  intro parent
  refine (grows_privateDirectory os before parent listener.uid).bind ?_
  intro found
  split
  · exact keeps_lift _
  · exact keeps_pure _

theorem grows_removeSocket (before : List SystemCall) (listener : UnixListener) :
    Keeps (Grows before) (removeSocket os listener) := by
  refine (grows_record before _ _).bind ?_
  intro answer
  rcases answer with error | metadata
  · cases error with
    | notFound => exact keeps_pure _
    | other => exact keeps_lift _
  · dsimp only
    split
    · exact keeps_lift _
    · exact grows_call before _ _

theorem grows_drop {before : List SystemCall} {s : Host ω × UnixListener} (h : Grows before s.1) :
    Grows before (drop os s).1 := by
  unfold drop
  split
  · exact h.trans (List.prefix_append _ _)
  · exact h

theorem grows_onHost {α : Type} {before : List SystemCall}
    {x : UnixListener → Action (Host ω) TransportError α}
    (h : ∀ listener, Keeps (Grows before) (x listener)) :
    Keeps (fun s : Host ω × UnixListener => Grows before s.1) (onHost x) :=
  fun s hs => h s.2 s.1 hs

theorem grows_cleanup (before : List SystemCall) :
    Keeps (fun s : Host ω × UnixListener => Grows before s.1) (cleanup os) := by
  refine keeps_get.bind ?_
  intro s
  split
  · exact keeps_pure _
  · refine (grows_onHost (grows_verifyParent os before)).bind ?_
    intro _
    refine (grows_onHost (grows_removeSocket os before)).bind ?_
    intro _
    refine Keeps.bind (fun _ h => grows_drop os h) ?_
    exact fun _ _ h => h

theorem grows_accept (before : List SystemCall) (listener : UnixListener) :
    Keeps (Grows before) (accept os listener) := by
  refine (keeps_lift _).bind ?_
  intro inner
  refine (grows_record before _ _).bind ?_
  intro answer
  rcases answer with _ | error | stream
  · exact keeps_lift _
  · exact keeps_lift _
  · have hauthorized : Keeps (Grows before) (authorized os listener.uid stream) := by
      refine (grows_call before _ _).bind ?_
      intro credentials
      exact (keeps_lift _).bind fun _ => keeps_pure _
    have hguarded : Keeps (Grows before)
        (Action.onFailure (Host.close os stream) (authorized os listener.uid stream)) := by
      intro host h
      rcases hrun : authorized os listener.uid stream host with ⟨o, host'⟩
      have h' := hauthorized host h
      rw [hrun] at h'
      rcases o.ok_or_failed with ⟨accepted, rfl⟩ | ho
      · rw [onFailure_ok hrun]
        exact h'
      · rw [onFailure_failed hrun ho]
        exact h'.trans (List.prefix_append _ _)
    exact hguarded

end UnixListener

open UnixListener

/-- What holds of a listener in use. -/
structure Hosting.Sound (uid : UInt32) (path : Path) (s : Hosting ω) : Prop where
  kept : Guarded uid path s.listener (s.accepted.map Accepted.stream) s.listener.cleaned
    s.host.calls
  peers : ∀ accepted ∈ s.accepted, Peers uid accepted s.host.calls

theorem Hosting.Sound.step {s : Hosting ω} (h : s.Sound uid path) (step : ListenerStep) :
    (s.step os step).Sound uid path := by
  have hpeers : ∀ {host : Host ω}, Grows s.host.calls host →
      ∀ accepted ∈ s.accepted, Peers uid accepted host.calls := by
    rintro host hgrows accepted hmem
    obtain ⟨credentials, hasked, huid, hpeer⟩ := h.peers accepted hmem
    exact ⟨credentials, hgrows.subset hasked, huid, hpeer⟩
  cases step with
  | accept =>
      have hgrows := grows_accept os s.host.calls s.listener s.host List.prefix_rfl
      rcases hrun : UnixListener.accept os s.listener s.host with ⟨o, host'⟩
      rw [hrun] at hgrows
      obtain ⟨hok, hfailed⟩ := (accept_kept os h.kept).elim hrun
      rcases o.ok_or_failed with ⟨accepted, rfl⟩ | ho
      · have hstep : s.step os .accept =
            { s with host := host', accepted := s.accepted ++ [accepted] } := by
          simp only [Hosting.step, hrun]
        obtain ⟨hkept, hpeer⟩ := hok accepted rfl
        rw [hstep]
        refine ⟨?_, ?_⟩
        · have hstreams : ((s.accepted ++ [accepted]).map Accepted.stream : Multiset Handle) =
              {accepted.stream} + (s.accepted.map Accepted.stream : Multiset Handle) := by
            rw [List.map_append, ← Multiset.coe_add, add_comm]
            rfl
          dsimp only
          rw [hstreams]
          exact hkept
        · intro accepted' hmem
          rcases List.mem_append.mp hmem with hmem | hmem
          · exact hpeers hgrows accepted' hmem
          · obtain rfl := List.mem_singleton.mp hmem
            exact hpeer
      · have hstep : s.step os .accept = { s with host := host' } := by
          cases o with
          | ok accepted => exact absurd ho (by simp)
          | _ => simp only [Hosting.step, hrun]
        rw [hstep]
        exact ⟨hfailed ho, hpeers hgrows⟩
  | cleanup =>
      have hgrows := grows_cleanup os s.host.calls (s.host, s.listener) List.prefix_rfl
      have hkept := (cleanup_kept os (s := (s.host, s.listener)) h.kept).1
      exact ⟨hkept, hpeers hgrows⟩

theorem Hosting.Sound.run {s : Hosting ω} (h : s.Sound uid path) (steps : List ListenerStep) :
    (s.run os steps).Sound uid path := by
  induction steps generalizing s with
  | nil => exact h
  | cons step steps ih => exact ih (h.step os step)

/-- A listener that was cleaned up makes no call any more. -/
theorem Hosting.ended {s : Hosting ω} (hcleaned : s.listener.cleaned = true)
    (hinner : s.listener.inner = none) (steps : List ListenerStep) :
    s.run os steps = s ∧
      UnixListener.accept os s.listener s.host = (.err .invalidEndpoint, s.host) ∧
      drop os (s.host, s.listener) = (s.host, s.listener) := by
  have haccept : UnixListener.accept os s.listener s.host = (.err .invalidEndpoint, s.host) := by
    have hrefused : (lift (Outcome.okOr .invalidEndpoint s.listener.inner) :
        Action (Host ω) TransportError Handle) s.host = (.err .invalidEndpoint, s.host) := by
      rw [hinner]
      rfl
    unfold UnixListener.accept
    rw [bind_failed hrefused (by simp)]
    rfl
  have hcleanup : cleanup os (s.host, s.listener) = (.ok (), (s.host, s.listener)) := by
    unfold cleanup
    rw [bind_ok (get_apply _), if_pos hcleaned]
    rfl
  refine ⟨?_, haccept, by simp [drop, hinner]⟩
  induction steps with
  | nil => rfl
  | cons step steps ih =>
      have hstep : s.step os step = s := by
        cases step with
        | accept => simp only [Hosting.step, haccept]
        | cleanup => simp only [Hosting.step, hcleanup]
      rw [Hosting.run, List.foldl_cons, hstep]
      exact ih

/-- **A listener touches its own socket only.** Whatever the system answers and whatever
the owner does from `bind` to `drop`: every call is warranted by the calls before it, at
every moment; every descriptor that was opened is closed once or was delivered, and a
stream is delivered only to the same user. Once a cleanup has succeeded, no call is made. -/
theorem life_guarded (path : Path) (steps : List ListenerStep) (world : ω) :
    ((∀ before call after, (life os path steps world).1.calls = before ++ call :: after →
        Allowed (os.geteuid world) path before call) ∧
      opened (life os path steps world).1.calls = closed (life os path steps world).1.calls +
        ((life os path steps world).2.map Accepted.stream : Multiset Handle) ∧
      ∀ accepted ∈ (life os path steps world).2,
        Peers (os.geteuid world) accepted (life os path steps world).1.calls) ∧
    ∀ listener host, UnixListener.bind os path ⟨world, []⟩ = (.ok listener, host) →
      ∀ s, s = Hosting.run os steps ⟨host, listener, []⟩ →
      (cleanup os (s.host, s.listener)).1 = .ok () → ∀ later t, t = s.step os .cleanup →
        t.run os later = t ∧
          UnixListener.accept os t.listener t.host = (.err .invalidEndpoint, t.host) ∧
          drop os (t.host, t.listener) = (t.host, t.listener) := by
  rcases hbind : UnixListener.bind os path ⟨world, []⟩ with ⟨o, host⟩
  obtain ⟨hok, hfailed⟩ := (bind_kept os path world).elim hbind
  rcases o.ok_or_failed with ⟨listener, rfl⟩ | ho
  · have hsound : Hosting.Sound (os.geteuid world) path
        (Hosting.run os steps ⟨host, listener, []⟩) :=
      Hosting.Sound.run os ⟨hok listener rfl, by simp⟩ steps
    have hlife : life os path steps world =
        ((drop os ((Hosting.run os steps ⟨host, listener, []⟩).host,
          (Hosting.run os steps ⟨host, listener, []⟩).listener)).1,
        (Hosting.run os steps ⟨host, listener, []⟩).accepted) := by
      simp only [life, hbind]
    rw [hlife]
    obtain ⟨hkept, hpeers⟩ := hsound
    refine ⟨?_, ?_⟩
    · generalize Hosting.run os steps ⟨host, listener, []⟩ = s at hkept hpeers
      obtain ⟨hdropped, hinner⟩ := drop_kept os (s := (s.host, s.listener)) hkept
      refine ⟨?_, ?_, ?_⟩
      · intro before call after hsplit
        have hwarranted := hdropped.warranted
        rw [hsplit] at hwarranted
        exact hwarranted.entry
      · rw [hdropped.ledger, held, hinner]
        simp
      · have hgrows : Grows s.host.calls (drop os (s.host, s.listener)).1 :=
          grows_drop os List.prefix_rfl
        intro accepted hmem
        obtain ⟨credentials, hasked, hrest⟩ := hpeers accepted hmem
        exact ⟨credentials, hgrows.subset hasked, hrest⟩
    · rintro _ _ hsame s rfl hdone later t rfl
      obtain ⟨hok', rfl⟩ := Prod.mk.inj hsame
      obtain rfl := Outcome.ok.inj hok'
      obtain ⟨hkept', hcleaned⟩ := cleanup_kept os (s := (_, _)) hkept
      exact Hosting.ended os (hcleaned hdone) (hkept'.done (hcleaned hdone)) later
  · have hlife : life os path steps world = (host, []) := by
      cases o with
      | ok listener => exact absurd ho (by simp)
      | _ => simp only [life, hbind]
    rw [hlife]
    obtain ⟨hwarranted, hledger⟩ := hfailed ho
    refine ⟨⟨?_, by simpa using hledger, by simp⟩, ?_⟩
    · intro before call after hsplit
      rw [hsplit] at hwarranted
      exact hwarranted.entry
    rintro listener host' hsame
    exact absurd (Prod.mk.inj hsame).1 (ho listener)

end Guarded

/-- A user alone with an empty directory. The state is whether the socket is there. -/
def quietOs : Os Bool where
  geteuid _ := 1000
  symlinkMetadata path bound :=
    (if path = ⟨[.rootDir]⟩ then .ok ⟨.directory, 1, 2, 1000, 0o700⟩
      else if bound then .ok ⟨.socket, 1, 3, 1000, 0o600⟩ else .error .notFound, bound)
  canonicalize path bound := (.ok path, bound)
  bind _ _ := (.ok 3, true)
  setPermissions _ _ bound := (.ok (), bound)
  removeFile _ _ := (.ok (), false)
  accept _ bound := (some (.ok 4), bound)
  peerCred _ bound := (.ok ⟨1000, 100, some 7⟩, bound)
  close _ bound := bound

theorem life_guarded_quiet : ∃ listener host,
    UnixListener.bind quietOs ⟨[.rootDir, .normal [115]]⟩ ⟨false, []⟩ = (.ok listener, host) ∧
      ∃ t, t = (Hosting.run quietOs [.accept] ⟨host, listener, []⟩).step quietOs .cleanup ∧
        t.accepted = [⟨4, some (.unix 1000 100 (some 7))⟩] ∧
        t.run quietOs [.accept, .cleanup] = t :=
  ⟨_, _, rfl, _, rfl, rfl, ((life_guarded quietOs ⟨[.rootDir, .normal [115]]⟩ [.accept] false).2
    _ _ rfl _ rfl rfl [.accept, .cleanup] _ rfl).1⟩

end Assuan
