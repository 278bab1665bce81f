import Assuan.Client.Session
import Assuan.Protocol.Secret

/-!
# Collected responses (`assuan-client/src/response.rs`)

`collect` and `collect_secret` run a transaction to its end, cancel inquiries and
keep data, status fields and comments, within limits on the bytes that are kept
and on the events that are seen. One loop serves both; they differ in the
container that takes the data.
-/

namespace Assuan

/-- Limits are positive `usize` values. -/
structure CollectLimits : Type where
  maxBytes : ℕ
  maxEvents : ℕ
  bytes_pos : 0 < maxBytes
  events_pos : 0 < maxEvents
  bytes_fit : maxBytes ≤ usizeMax
  events_fit : maxEvents ≤ usizeMax

/-- `new`, on two `usize` values. -/
def CollectLimits.new (maxBytes maxEvents : ℕ) (hbytes : maxBytes ≤ usizeMax)
    (hevents : maxEvents ≤ usizeMax) : Outcome ClientError CollectLimits :=
  if h : maxBytes = 0 ∨ maxEvents = 0 then .err .invalidOptions
  else .ok ⟨maxBytes, maxEvents, Nat.pos_of_ne_zero fun h' => h (Or.inl h'),
    Nat.pos_of_ne_zero fun h' => h (Or.inr h'), hbytes, hevents⟩

/-- `Default`: 16 MiB and 4096 events. -/
def CollectLimits.default : CollectLimits :=
  ⟨16 * 1024 * 1024, 4096, Nat.le_of_ble_eq_true rfl, Nat.le_of_ble_eq_true rfl,
    Nat.le_of_ble_eq_true rfl, Nat.le_of_ble_eq_true rfl⟩

/-- Every value of the type, the default included, is one that `new` accepts. -/
theorem CollectLimits.new_eq (limits : CollectLimits) :
    CollectLimits.new limits.maxBytes limits.maxEvents limits.bytes_fit limits.events_fit =
      .ok limits := by
  have hpos : ¬ (limits.maxBytes = 0 ∨ limits.maxEvents = 0) := by
    rw [not_or]
    exact ⟨Nat.ne_of_gt limits.bytes_pos, Nat.ne_of_gt limits.events_pos⟩
  rw [CollectLimits.new, dif_neg hpos]

structure Response : Type where
  data : Bytes
  statuses : List (String × Bytes)
  comments : List Bytes
deriving DecidableEq

/-! ## §1  Protected storage -/

namespace SecretBytes

/-- An empty reservation cannot fail. -/
def withCapacity (capacity : ℕ) : Action SessionCore ClientError SecretBytes :=
  if capacity = 0 then pure ⟨capacity, [], Nat.zero_le _⟩
  else do
    Transaction.allocate
    pure ⟨capacity, [], Nat.zero_le _⟩

/-- `extended_length` and the copy. -/
def extendFromSlice (storage : SecretBytes) (bytes : Bytes) : Outcome ClientError SecretBytes :=
  match checkedAdd usizeMax storage.bytes.length bytes.length with
  | none => .err (.limit .lengthOverflow)
  | some _ =>
      if h : storage.bytes.length + bytes.length ≤ storage.capacity then
        .ok ⟨storage.capacity, storage.bytes ++ bytes, fits_append h⟩
      else .err (.limit .capacityExceeded)

end SecretBytes

structure SecretResponse : Type where
  data : SecretBytes
  statuses : List (String × Bytes)
  comments : List Bytes

inductive Collected : Type where
  | public_ (response : Response)
  | secret (response : SecretResponse)

/-! ## §2  The containers of the loop -/

structure Collecting : Type where
  data : Bytes
  secretData : SecretBytes
  statuses : List (String × Bytes)
  comments : List Bytes
  events : ℕ

namespace Collecting

def new (secretData : SecretBytes) : Collecting := ⟨[], secretData, [], [], 0⟩

/-- The retained bytes, a status with one more than its fields. The sum stays
below `max_bytes`, so that it cannot overflow. -/
def retained (c : Collecting) : ℕ :=
  c.data.length + c.secretData.bytes.length +
    (c.statuses.map fun status => (asBytes status.1).length + status.2.length + 1).sum +
    (c.comments.map List.length).sum

def ensureRoom (c : Collecting) (add limit : ℕ) : Outcome ClientError Unit :=
  match checkedAdd usizeMax c.retained add with
  | none => .err (.limit .capacityExceeded)
  | some n => if n > limit then .err (.limit .capacityExceeded) else .ok ()

/-- `events.checked_add(1)` and the comparison with `max_events`. -/
def countEvent (c : Collecting) (limits : CollectLimits) : Outcome ClientError Collecting := do
  let events ← Outcome.okOr (.limit .lengthOverflow) (checkedAdd usizeMax c.events 1)
  if events > limits.maxEvents then .err (.limit .capacityExceeded)
  else .ok { c with events := events }

/-- The arms of the `match` on an event, without what the inquiry does. -/
def retain (c : Collecting) (limits : CollectLimits) (secret : Bool) :
    Event → Outcome ClientError Collecting
  | .inquire _ => .ok c
  | .data payload => do
      c.ensureRoom payload.bytes.length limits.maxBytes
      if secret then
        let secretData ← c.secretData.extendFromSlice payload.bytes
        .ok { c with secretData := secretData }
      else .ok { c with data := c.data ++ payload.bytes }
  | .status keyword args => do
      let bytes ← Outcome.okOr (.limit .lengthOverflow)
        (checkedAdd usizeMax (asBytes keyword).length args.bytes.length)
      let bytes ← Outcome.okOr (.limit .lengthOverflow) (checkedAdd usizeMax bytes 1)
      c.ensureRoom bytes limits.maxBytes
      .ok { c with statuses := c.statuses ++ [(keyword, args.bytes)] }
  | .comment payload => do
      c.ensureRoom payload.bytes.length limits.maxBytes
      .ok { c with comments := c.comments ++ [payload.bytes] }
  | .end_ => .ok c
  | .finished _ _ => .ok c

/-- What one event does to the containers. -/
def take (c : Collecting) (limits : CollectLimits) (secret : Bool) (event : Event) :
    Outcome ClientError Collecting := do
  let c ← c.countEvent limits
  c.retain limits secret event

def collected (c : Collecting) (secret : Bool) : Collected :=
  if secret then .secret ⟨c.secretData, c.statuses, c.comments⟩
  else .public_ ⟨c.data, c.statuses, c.comments⟩

end Collecting

/-! ## §3  The loop -/

/-- An early return drops the event, and with it the guard of an inquiry. -/
def dropEvent : Event → SessionCore × Completion → SessionCore × Completion
  | .inquire inquiry, s => (Inquiry.drop (s.1, inquiry), s.2)
  | _, s => s

/-- The value says whether the loop ended with a final response. Each round but
the last takes a line. -/
def collectLoop (limits : CollectLimits) (secret : Bool) :
    ℕ → Collecting → Action (SessionCore × Completion) ClientError (Collecting × Bool)
  | 0, _ => Action.lift .panic
  | fuel + 1, c => do
      let event ← Transaction.next
      match event with
      | none => pure (c, false)
      | some event => do
          let c ← Action.onError (dropEvent event) (Action.lift (c.take limits secret event))
          match event with
          | .inquire inquiry => do
              onCore (Inquiry.finish true inquiry)
              collectLoop limits secret fuel c
          | .finished _ _ => pure (c, true)
          | _ => collectLoop limits secret fuel c

/-- The part of `collect_transaction` before `finish`. -/
def collectEvents (limits : CollectLimits) (secret : Bool) :
    Action (SessionCore × Completion) ClientError (Collecting × Bool) := do
  let s ← Action.get
  let secretData ← onCore (SecretBytes.withCapacity (if secret then limits.maxBytes else 0))
  collectLoop limits secret (s.1.channel.supply + 1) (.new secretData)

/-- `finish` consumes the transaction; every other way out drops it. -/
def collectTransaction (limits : CollectLimits) (secret : Bool) :
    Action SessionCore ClientError Collected := fun core =>
  match collectEvents limits secret (core, .pending) with
  | (.ok (c, true), (core, completion)) =>
      (Transaction.finish completion >>= fun _ => pure (c.collected secret)) core
  | (.ok (c, false), (core, _)) => (.ok (c.collected secret), Transaction.drop core)
  | (.err e, (core, _)) => (.err e, Transaction.drop core)
  | (.panic, (core, _)) => (.panic, Transaction.drop core)
  | (.dropped, (core, _)) => (.dropped, Transaction.drop core)

def collect (command : Command) (limits : CollectLimits) :
    Action SessionCore ClientError Response := do
  SessionCore.commandWith command .public_
  match (← collectTransaction limits false) with
  | .public_ response => pure response
  | .secret _ => Action.throw .incomplete

def collectSecret (command : Command) (limits : CollectLimits) :
    Action SessionCore ClientError SecretResponse := do
  SessionCore.commandWith command .secret
  match (← collectTransaction limits true) with
  | .secret response => pure response
  | .public_ _ => Action.throw .incomplete

end Assuan
