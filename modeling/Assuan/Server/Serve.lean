import Mathlib.Data.List.Perm.Basic
import Assuan.Foundation.Runs
import Assuan.Server.Session

/-!
# Serving (`assuan-server/src/server.rs`)

`serve` waits for a permit, then for a connection, and spawns a session that owns
both. Sessions end whenever they like. Two loops of `select!` reap what has ended
and watch for the shutdown; a drain with a deadline follows them. Which branch of a
`select!` is taken next, and when a session ends, is left open: a run is any list
of events that are possible one after the other.
-/

namespace Assuan

/-! ## §1  Options -/

namespace ServerOptions

/-- `deadline(duration)?`, on the instants that cannot be represented. -/
def deadline (duration : ℕ) : Action (List Bool) ServerError Unit := fun horizon =>
  if duration = 0 then (.err .invalidOptions, horizon)
  else (if horizon.headD false then .err .invalidOptions else .ok (), horizon.tail)

def validate (options : ServerOptions) : Action (List Bool) ServerError Unit :=
  if options.maxInquiryBytes = 0 ∨ options.maxSessions = 0 ∨ options.maxSessions > maxPermits then
    Action.throw .invalidOptions
  else
    Action.forEach deadline [options.greetingTimeout, options.commandTimeout,
      options.inquiryTimeout, options.idleTimeout, options.shutdownTimeout]

end ServerOptions

/-- A session has its own instants, but checks the same options. -/
theorem Session.forEach_deadline {S : Type} (durations : List ℕ) :
    Action.forEach (Session.deadline (S := S)) durations =
      Action.zoom Session.horizon (fun session horizon => { session with horizon := horizon })
        (Action.forEach ServerOptions.deadline durations) := by
  induction durations with
  | nil => rfl
  | cons duration durations ih =>
      funext session
      rcases hrun : ServerOptions.deadline duration session.horizon with ⟨o, horizon⟩
      -- one deadline, on the instants of the session
      have hrun' : Session.deadline duration session = (o, { session with horizon := horizon }) := by
        unfold ServerOptions.deadline at hrun
        unfold Session.deadline
        by_cases hzero : duration = 0
        · rw [if_pos hzero] at hrun ⊢
          obtain ⟨rfl, rfl⟩ := Prod.mk.inj hrun
          rfl
        · rw [if_neg hzero] at hrun ⊢
          obtain ⟨rfl, rfl⟩ := Prod.mk.inj hrun
          rfl
      rw [Action.forEach, Action.zoom]
      simp only [Action.forEach]
      rcases o.ok_or_failed with ⟨u, rfl⟩ | hfailed
      · rw [Action.bind_ok hrun, Action.bind_ok hrun', ih]
        rfl
      · rw [Action.bind_failed hrun hfailed, Action.bind_failed hrun' hfailed]

theorem Session.validate_eq {S : Type} (options : ServerOptions) :
    Session.validate (S := S) options =
      Action.zoom Session.horizon (fun session horizon => { session with horizon := horizon })
        options.validate := by
  unfold Session.validate ServerOptions.validate
  split
  · rfl
  · exact Session.forEach_deadline _

/-! ## §2  What Tokio provides -/

/-- Permits that nobody holds. -/
structure Semaphore : Type where
  permits : ℕ
  closed : Bool
deriving DecidableEq, Repr

namespace Semaphore

def new (permits : ℕ) : Semaphore := ⟨permits, false⟩

/-- `acquire_owned`, which waits for a permit and fails on a closed semaphore. -/
def acquireOwned (semaphore : Semaphore) : Option (Except Unit Semaphore) :=
  if semaphore.closed then some (.error ())
  else if semaphore.permits = 0 then none
  else some (.ok { semaphore with permits := semaphore.permits - 1 })

/-- An owned permit is dropped. -/
def release (semaphore : Semaphore) : Semaphore :=
  { semaphore with permits := semaphore.permits + 1 }

end Semaphore

/-- `Result<Result<(), ServerError>, JoinError>`. -/
inductive Joined : Type where
  | ended (result : Except ServerError Unit)
  | panicked
  | cancelled

/-- A task of the `JoinSet`. It owns its permit until it has ended. -/
structure SessionTask (C : Type) : Type where
  connection : C
  aborted : Bool
  ended : Option Joined

namespace SessionTask

variable {C : Type}

def live (task : SessionTask C) : Bool := task.ended.isNone

def abort (task : SessionTask C) : SessionTask C := { task with aborted := true }

end SessionTask

/-! ## §3  The state of `serve` -/

/-- The place of the next `await`, or of what runs between two of them. -/
inductive Location : Type where
  | acquiring
  | accepting
  | spawning
  | closing
  | draining
  | aborting
  | returned
deriving DecidableEq, Repr

/-- The outer loop has been left. -/
def Location.past : Location → Bool
  | .closing | .draining | .aborting | .returned => true
  | _ => false

/-- Warnings of the `log` crate. -/
inductive Warning : Type where
  | sessionEnded (reason : SessionEnd)
  | taskEnded (category : String)
deriving DecidableEq, Repr

def record : Joined → List Warning
  | .ended (.ok ()) => []
  | .ended (.error e) => [.sessionEnded (endReason e)]
  | .cancelled => [.taskEnded "cancelled"]
  | .panicked => [.taskEnded "panic"]

/-- The locals of `serve`. `permit` says whether the loop owns one, `incoming`
whether the future of `accept` exists, and `result` is what the outer loop breaks
with. The last three fields are a record of what happened: connections that were
taken from the acceptor, connections that were given to a session, and tasks that
were joined. -/
structure Serving (C : Type) : Type where
  options : ServerOptions
  horizon : List Bool
  location : Location
  semaphore : Semaphore
  permit : Bool
  incoming : Bool
  accepted : Option C
  tasks : List (SessionTask C)
  result : Except ServerError Unit
  log : List Warning
  taken : List C
  started : List C
  joined : List (SessionTask C)

inductive ServeEvent (C : Type) : Type where
  | shutdown
  | acquire
  | accept (result : Except TransportError C)
  | spawn
  | finish (task : ℕ) (result : Except ServerError Unit)
  | panic (task : ℕ)
  | cancel (task : ℕ)
  | reap (task : ℕ)
  | close
  | expire
  | return_

namespace Serving

variable {C : Type}

/-- What `serve` does before its loops. -/
def start (options : ServerOptions) (horizon : List Bool) : Outcome ServerError (Serving C) := do
  (options.validate horizon).1
  .ok {
    options := options
    horizon := (options.validate horizon).2
    location := .acquiring
    semaphore := .new options.maxSessions
    permit := false
    incoming := false
    accepted := none
    tasks := []
    result := .ok ()
    log := []
    taken := []
    started := []
    joined := [] }

def live (s : Serving C) : ℕ := s.tasks.countP SessionTask.live

/-- `break 'accepting`: what the loops own is dropped. -/
def leave (s : Serving C) (result : Except ServerError Unit) : Serving C :=
  { s with
    location := .closing
    result := result
    incoming := false
    permit := false
    semaphore := if s.permit then s.semaphore.release else s.semaphore }

/-- A future ends or is dropped, and its permit with it. -/
def endTask (s : Serving C) (i : ℕ) (joined : Joined) : Option (Serving C) :=
  match s.tasks[i]? with
  | none => none
  | some task =>
      if task.live then
        some { s with
          tasks := s.tasks.set i { task with ended := some joined }
          semaphore := s.semaphore.release }
      else none

/-- `join_next` returns a task that has ended, and `record` logs it. -/
def joinNext (s : Serving C) (i : ℕ) : Option (Serving C) :=
  match s.tasks[i]? with
  | none => none
  | some task =>
      match task.ended with
      | none => none
      | some joined =>
          some { s with
            tasks := s.tasks.eraseIdx i
            joined := s.joined ++ [task]
            log := s.log ++ record joined }

/-- `deadline(shutdown_timeout)?`. An error drops the set of tasks, which aborts
them without waiting. -/
def close (s : Serving C) : Serving C :=
  match ServerOptions.deadline s.options.shutdownTimeout s.horizon with
  | (.err e, horizon) =>
      { s with
        location := .returned, horizon := horizon, result := .error e
        tasks := s.tasks.map SessionTask.abort }
  | (_, horizon) => { s with location := .draining, horizon := horizon }

/-- One event, where it is possible. -/
def step (s : Serving C) : ServeEvent C → Option (Serving C)
  -- the first branch of both `select!`s
  | .shutdown =>
      if s.location = .acquiring ∨ s.location = .accepting then some (s.leave (.ok ())) else none
  | .acquire =>
      if s.location = .acquiring then
        match s.semaphore.acquireOwned with
        | none => none
        | some (.error _) => some (s.leave (.error .invalidOptions))
        | some (.ok semaphore) =>
            some { s with
              location := .accepting, semaphore := semaphore, permit := true, incoming := true }
      else none
  | .accept result =>
      if s.location = .accepting then
        match result with
        | .error e => some (s.leave (.error (.transport e)))
        | .ok connection =>
            some { s with
              location := .spawning, incoming := false, accepted := some connection
              taken := s.taken ++ [connection] }
      else none
  | .spawn =>
      if s.location = .spawning then
        match s.accepted with
        | none => none
        | some connection =>
            some { s with
              location := .acquiring, permit := false, accepted := none
              tasks := s.tasks ++ [⟨connection, false, none⟩]
              started := s.started ++ [connection] }
      else none
  | .finish i result => s.endTask i (.ended result)
  | .panic i => s.endTask i .panicked
  | .cancel i => if (s.tasks[i]?).any SessionTask.aborted then s.endTask i .cancelled else none
  -- neither between a connection and its session nor before the deadline is known
  | .reap i =>
      if s.location = .acquiring ∨ s.location = .accepting ∨ s.location = .draining ∨
          s.location = .aborting then s.joinNext i
      else none
  | .close => if s.location = .closing then some s.close else none
  -- `timeout_at` polls the drain first, so that something is left
  | .expire =>
      if s.location = .draining ∧ s.tasks ≠ [] then
        some { s with location := .aborting, tasks := s.tasks.map SessionTask.abort }
      else none
  | .return_ =>
      if (s.location = .draining ∨ s.location = .aborting) ∧ s.tasks = [] then
        some { s with location := .returned }
      else none

def run (s : Serving C) (events : List (ServeEvent C)) : Option (Serving C) :=
  runSteps step events s

/-! ## §4  What a step can be -/

/-- A session ends by itself, or because it was aborted. -/
inductive Ends (s : Serving C) : ServeEvent C → ℕ → Joined → Prop where
  | finish (i : ℕ) (result : Except ServerError Unit) : Ends s (.finish i result) i (.ended result)
  | panic (i : ℕ) : Ends s (.panic i) i .panicked
  | cancel (i : ℕ) (aborted : (s.tasks[i]?).any SessionTask.aborted = true) :
      Ends s (.cancel i) i .cancelled

/-- The steps, with all that they need and do. -/
inductive Stepped (s : Serving C) : ServeEvent C → Serving C → Prop where
  | shutdown (here : s.location = .acquiring ∨ s.location = .accepting) :
      Stepped s .shutdown (s.leave (.ok ()))
  | acquire {semaphore : Semaphore} (here : s.location = .acquiring)
      (acquired : s.semaphore.acquireOwned = some (.ok semaphore)) :
      Stepped s .acquire { s with
        location := .accepting, semaphore := semaphore, permit := true, incoming := true }
  | refused (here : s.location = .acquiring) (closed : s.semaphore.closed = true) :
      Stepped s .acquire (s.leave (.error .invalidOptions))
  | failed (e : TransportError) (here : s.location = .accepting) :
      Stepped s (.accept (.error e)) (s.leave (.error (.transport e)))
  | taken (connection : C) (here : s.location = .accepting) :
      Stepped s (.accept (.ok connection)) { s with
        location := .spawning, incoming := false, accepted := some connection
        taken := s.taken ++ [connection] }
  | spawn {connection : C} (here : s.location = .spawning) (held : s.accepted = some connection) :
      Stepped s .spawn { s with
        location := .acquiring, permit := false, accepted := none
        tasks := s.tasks ++ [⟨connection, false, none⟩]
        started := s.started ++ [connection] }
  | ended {event : ServeEvent C} {i : ℕ} {joined : Joined} {task : SessionTask C}
      (ends : Ends s event i joined) (found : s.tasks[i]? = some task) (live : task.live = true) :
      Stepped s event { s with
        tasks := s.tasks.set i { task with ended := some joined }
        semaphore := s.semaphore.release }
  | reap {i : ℕ} {joined : Joined} {task : SessionTask C}
      (here : s.location = .acquiring ∨ s.location = .accepting ∨ s.location = .draining ∨
        s.location = .aborting)
      (found : s.tasks[i]? = some task) (dead : task.ended = some joined) :
      Stepped s (.reap i) { s with
        tasks := s.tasks.eraseIdx i
        joined := s.joined ++ [task]
        log := s.log ++ record joined }
  | close (here : s.location = .closing) : Stepped s .close s.close
  | expire (here : s.location = .draining) (busy : s.tasks ≠ []) :
      Stepped s .expire { s with
        location := .aborting, tasks := s.tasks.map SessionTask.abort }
  | return_ (here : s.location = .draining ∨ s.location = .aborting) (idle : s.tasks = []) :
      Stepped s .return_ { s with location := .returned }

section Steps

variable {s s' : Serving C} {event : ServeEvent C}

theorem endTask_cases {i : ℕ} {joined : Joined} (hends : Ends s event i joined)
    (h : s.endTask i joined = some s') : Stepped s event s' := by
  unfold endTask at h
  split at h
  · exact absurd h (by simp)
  · next task hfound =>
      split at h
      · next hlive =>
          obtain rfl := Option.some.inj h
          exact .ended hends hfound hlive
      · exact absurd h (by simp)

theorem joinNext_cases {i : ℕ} (h : s.joinNext i = some s')
    (here : s.location = .acquiring ∨ s.location = .accepting ∨ s.location = .draining ∨
      s.location = .aborting) : Stepped s (.reap i) s' := by
  unfold joinNext at h
  split at h
  · exact absurd h (by simp)
  · next task hfound =>
      split at h
      · exact absurd h (by simp)
      · next joined hover =>
          obtain rfl := Option.some.inj h
          exact .reap here hfound hover

theorem acquireOwned_error {semaphore : Semaphore} {u : Unit}
    (h : semaphore.acquireOwned = some (.error u)) : semaphore.closed = true := by
  unfold Semaphore.acquireOwned at h
  by_contra hopen
  rw [if_neg hopen] at h
  split at h
  · exact absurd h (by simp)
  · exact absurd h (by simp)

theorem step_cases (h : s.step event = some s') : Stepped s event s' := by
  cases event with
  | shutdown =>
      obtain ⟨here, h⟩ := Option.ite_none_right_eq_some.mp h
      obtain rfl := Option.some.inj h
      exact .shutdown here
  | acquire =>
      obtain ⟨here, h⟩ := Option.ite_none_right_eq_some.mp h
      split at h
      · exact absurd h (by simp)
      · next hclosed =>
          obtain rfl := Option.some.inj h
          exact .refused here (acquireOwned_error hclosed)
      · next semaphore hacquired =>
          obtain rfl := Option.some.inj h
          exact .acquire here hacquired
  | accept result =>
      obtain ⟨here, h⟩ := Option.ite_none_right_eq_some.mp h
      cases result with
      | error e =>
          obtain rfl := Option.some.inj h
          exact .failed e here
      | ok connection =>
          obtain rfl := Option.some.inj h
          exact .taken connection here
  | spawn =>
      obtain ⟨here, h⟩ := Option.ite_none_right_eq_some.mp h
      split at h
      · exact absurd h (by simp)
      · next connection hheld =>
          obtain rfl := Option.some.inj h
          exact .spawn here hheld
  | finish i result => exact endTask_cases (.finish i result) h
  | panic i => exact endTask_cases (.panic i) h
  | cancel i =>
      obtain ⟨haborted, h⟩ := Option.ite_none_right_eq_some.mp h
      exact endTask_cases (.cancel i haborted) h
  | reap i =>
      obtain ⟨here, h⟩ := Option.ite_none_right_eq_some.mp h
      exact joinNext_cases h here
  | close =>
      obtain ⟨here, h⟩ := Option.ite_none_right_eq_some.mp h
      obtain rfl := Option.some.inj h
      exact .close here
  | expire =>
      obtain ⟨⟨here, hbusy⟩, h⟩ := Option.ite_none_right_eq_some.mp h
      obtain rfl := Option.some.inj h
      exact .expire here hbusy
  | return_ =>
      obtain ⟨⟨here, hidle⟩, h⟩ := Option.ite_none_right_eq_some.mp h
      obtain rfl := Option.some.inj h
      exact .return_ here hidle

end Steps

/-! ## §5  Permits and sessions -/

/-- What holds between any two steps. -/
structure Orderly (limit : ℕ) (s : Serving C) : Prop where
  permits : s.semaphore.permits + s.live + s.permit.toNat = limit
  opened : s.semaphore.closed = false
  incoming : s.incoming = true ↔ s.location = .accepting
  permit : s.permit = true ↔ s.location = .accepting ∨ s.location = .spawning
  accepted : s.accepted.isSome = true ↔ s.location = .spawning
  given : s.taken = s.started ++ s.accepted.toList
  joined : ((s.joined ++ s.tasks).map SessionTask.connection).Perm s.started
  finished : ∀ task ∈ s.joined, task.ended.isSome = true

section Invariant

variable {s s' : Serving C} {event : ServeEvent C} {limit : ℕ}

theorem acquireOwned_ok {semaphore semaphore' : Semaphore}
    (h : semaphore.acquireOwned = some (.ok semaphore')) :
    semaphore'.permits + 1 = semaphore.permits ∧ semaphore'.closed = semaphore.closed := by
  unfold Semaphore.acquireOwned at h
  split at h
  · exact absurd h (by simp)
  · split at h
    · exact absurd h (by simp)
    · next hsome =>
        obtain rfl : { semaphore with permits := semaphore.permits - 1 } = semaphore' := by
          simpa using h
        exact ⟨Nat.succ_pred_eq_of_ne_zero hsome, rfl⟩

theorem leave_permits (s : Serving C) (result : Except ServerError Unit) :
    (s.leave result).semaphore.permits = s.semaphore.permits + s.permit.toNat := by
  unfold leave
  cases s.permit <;> rfl

theorem leave_closed (s : Serving C) (result : Except ServerError Unit) :
    (s.leave result).semaphore.closed = s.semaphore.closed := by
  unfold leave
  cases s.permit <;> rfl

/-- A task that ends is one less. -/
theorem live_set {tasks : List (SessionTask C)} {i : ℕ} {task : SessionTask C} (joined : Joined)
    (hfound : tasks[i]? = some task) (hlive : task.live = true) :
    (tasks.set i { task with ended := some joined }).countP SessionTask.live + 1 =
      tasks.countP SessionTask.live := by
  obtain ⟨hi, rfl⟩ := List.getElem?_eq_some_iff.mp hfound
  -- the count would not tell a task that had ended before
  have hpos : 0 < tasks.countP SessionTask.live :=
    List.countP_pos_iff.mpr ⟨_, List.getElem_mem hi, hlive⟩
  have hover : SessionTask.live { tasks[i] with ended := some joined } = false := rfl
  rw [List.countP_set hi, hlive, hover]
  simp only [if_true, Bool.false_eq_true, if_false]
  omega

/-- A task that is reaped was none. -/
theorem live_eraseIdx {tasks : List (SessionTask C)} {i : ℕ} {task : SessionTask C} {joined : Joined}
    (hfound : tasks[i]? = some task) (hover : task.ended = some joined) :
    (tasks.eraseIdx i).countP SessionTask.live = tasks.countP SessionTask.live := by
  obtain ⟨hi, rfl⟩ := List.getElem?_eq_some_iff.mp hfound
  have hdead : tasks[i].live = false := by simp [SessionTask.live, hover]
  rw [← (List.getElem_cons_eraseIdx_perm hi).countP_eq SessionTask.live, List.countP_cons, hdead]
  simp

theorem live_abort (tasks : List (SessionTask C)) :
    (tasks.map SessionTask.abort).countP SessionTask.live = tasks.countP SessionTask.live :=
  List.countP_map

theorem connection_set {tasks : List (SessionTask C)} {i : ℕ} {task : SessionTask C}
    (joined : Joined) (hfound : tasks[i]? = some task) :
    (tasks.set i { task with ended := some joined }).map SessionTask.connection =
      tasks.map SessionTask.connection := by
  obtain ⟨hi, rfl⟩ := List.getElem?_eq_some_iff.mp hfound
  rw [List.map_set]
  apply List.ext_getElem
  · simp
  · intro n h₁ h₂
    rw [List.getElem_set]
    split
    · next heq =>
        subst heq
        simp
    · rfl

theorem Orderly.leave (h : Orderly limit s)
    (here : s.location = .acquiring ∨ s.location = .accepting) (result : Except ServerError Unit) :
    Orderly limit (s.leave result) := by
  have hnone : s.accepted.isSome = false := by
    rw [← Bool.not_eq_true, h.accepted]
    rcases here with here | here <;> simp [here]
  refine ⟨?_, ?_, ?_, ?_, ?_, h.given, h.joined, h.finished⟩
  · have hsum := h.permits
    show (s.leave result).semaphore.permits + s.live + 0 = limit
    rw [leave_permits]
    omega
  · rw [leave_closed]
    exact h.opened
  · simp [Serving.leave]
  · simp [Serving.leave]
  · simp [Serving.leave, hnone]

/-- Behind the loops only the tasks are left. -/
theorem Orderly.past (h : Orderly limit s) (here : s.location.past = true) {location : Location}
    (hpast : location.past = true) {tasks : List (SessionTask C)}
    (htasks : tasks = s.tasks ∨ tasks = s.tasks.map SessionTask.abort) (horizon : List Bool)
    (result : Except ServerError Unit) :
    Orderly limit { s with
      location := location, horizon := horizon, result := result, tasks := tasks } := by
  have hlive : tasks.countP SessionTask.live = s.live := by
    rcases htasks with rfl | rfl
    · rfl
    · exact live_abort s.tasks
  have hsame : tasks.map SessionTask.connection = s.tasks.map SessionTask.connection := by
    rcases htasks with rfl | rfl
    · rfl
    · rw [List.map_map]
      rfl
  -- the three locals are those of the loops
  have hnot : ∀ location : Location, location.past = true →
      location ≠ .accepting ∧ location ≠ .spawning := by
    rintro (_ | _ | _ | _ | _ | _ | _) hloc <;> simp_all [Location.past]
  obtain ⟨haccepting, hspawning⟩ := hnot _ here
  obtain ⟨haccepting', hspawning'⟩ := hnot _ hpast
  refine ⟨?_, h.opened, ?_, ?_, ?_, h.given, ?_, h.finished⟩
  · show s.semaphore.permits + tasks.countP SessionTask.live + s.permit.toNat = limit
    rw [hlive]
    exact h.permits
  · exact h.incoming.trans (by simp [haccepting, haccepting'])
  · exact h.permit.trans (by simp [haccepting, hspawning, haccepting', hspawning'])
  · exact h.accepted.trans (by simp [hspawning, hspawning'])
  · have hperm := h.joined
    rw [List.map_append] at hperm
    show ((s.joined ++ tasks).map SessionTask.connection).Perm s.started
    rw [List.map_append, hsame]
    exact hperm

theorem close_eq (s : Serving C) : ∃ location horizon result tasks,
    s.close = { s with location := location, horizon := horizon, result := result, tasks := tasks } ∧
      location.past = true ∧ (tasks = s.tasks ∨ tasks = s.tasks.map SessionTask.abort) := by
  unfold close
  split
  · exact ⟨_, _, _, _, rfl, rfl, Or.inr rfl⟩
  · exact ⟨_, _, _, _, rfl, rfl, Or.inl rfl⟩

/-- A permit moves from the semaphore to the loop. -/
theorem Orderly.acquire (h : Orderly limit s) (here : s.location = .acquiring)
    {semaphore : Semaphore} (hacquired : s.semaphore.acquireOwned = some (.ok semaphore)) :
    Orderly limit { s with
      location := .accepting, semaphore := semaphore, permit := true, incoming := true } := by
  obtain ⟨hpermits, hclosed⟩ := acquireOwned_ok hacquired
  have hpermit : s.permit = false := by
    rw [← Bool.not_eq_true, h.permit, here]
    simp
  have hnone : s.accepted.isSome = false := by
    rw [← Bool.not_eq_true, h.accepted, here]
    simp
  refine ⟨?_, hclosed.trans h.opened, by simp, by simp, by simp [hnone], h.given, h.joined,
    h.finished⟩
  have hsum := h.permits
  rw [hpermit] at hsum
  show semaphore.permits + s.live + 1 = limit
  simp only [Bool.toNat_false] at hsum
  omega

theorem Orderly.take (h : Orderly limit s) (here : s.location = .accepting) (connection : C) :
    Orderly limit { s with
      location := .spawning, incoming := false, accepted := some connection
      taken := s.taken ++ [connection] } := by
  have hpermit : s.permit = true := h.permit.mpr (Or.inl here)
  have hnone : s.accepted = none := by
    rw [← Option.not_isSome_iff_eq_none, h.accepted, here]
    simp
  refine ⟨h.permits, h.opened, by simp, by simp [hpermit], by simp, ?_, h.joined, h.finished⟩
  have hgiven := h.given
  rw [hnone, Option.toList_none, List.append_nil] at hgiven
  show s.taken ++ [connection] = s.started ++ [connection]
  rw [hgiven]

/-- The permit moves on from the loop to the task. -/
theorem Orderly.spawn (h : Orderly limit s) (here : s.location = .spawning) {connection : C}
    (hheld : s.accepted = some connection) :
    Orderly limit { s with
      location := .acquiring, permit := false, accepted := none
      tasks := s.tasks ++ [⟨connection, false, none⟩]
      started := s.started ++ [connection] } := by
  have hpermit : s.permit = true := h.permit.mpr (Or.inr here)
  have hincoming : s.incoming = false := by
    rw [← Bool.not_eq_true, h.incoming, here]
    simp
  refine ⟨?_, h.opened, by simp [hincoming], by simp, by simp, ?_, ?_, h.finished⟩
  · have hsum := h.permits
    rw [hpermit] at hsum
    have hmore : (s.tasks ++ [SessionTask.mk connection false none]).countP SessionTask.live =
        s.live + 1 := List.countP_append
    show s.semaphore.permits + (s.tasks ++ [SessionTask.mk connection false none]).countP
      SessionTask.live + 0 = limit
    simp only [Bool.toNat_true] at hsum
    omega
  · have hgiven := h.given
    rw [hheld] at hgiven
    show s.taken = s.started ++ [connection] ++ []
    rw [List.append_nil]
    exact hgiven
  · show ((s.joined ++ (s.tasks ++ [SessionTask.mk connection false none])).map
      SessionTask.connection).Perm (s.started ++ [connection])
    rw [← List.append_assoc, List.map_append]
    exact h.joined.append_right _

/-- The permit of a task goes back, however the task ends. -/
theorem Orderly.ended (h : Orderly limit s) {i : ℕ} {task : SessionTask C} (joined : Joined)
    (hfound : s.tasks[i]? = some task) (hlive : task.live = true) :
    Orderly limit { s with
      tasks := s.tasks.set i { task with ended := some joined }
      semaphore := s.semaphore.release } := by
  refine ⟨?_, h.opened, h.incoming, h.permit, h.accepted, h.given, ?_, h.finished⟩
  · have hsum := h.permits
    have hless := live_set joined hfound hlive
    show s.semaphore.permits + 1 + (s.tasks.set i { task with ended := some joined }).countP
      SessionTask.live + s.permit.toNat = limit
    unfold live at hsum
    omega
  · have hperm := h.joined
    rw [List.map_append] at hperm
    show ((s.joined ++ s.tasks.set i { task with ended := some joined }).map
      SessionTask.connection).Perm s.started
    rw [List.map_append, connection_set joined hfound]
    exact hperm

theorem Orderly.reap (h : Orderly limit s) {i : ℕ} {joined : Joined} {task : SessionTask C}
    (hfound : s.tasks[i]? = some task) (hover : task.ended = some joined) :
    Orderly limit { s with
      tasks := s.tasks.eraseIdx i
      joined := s.joined ++ [task]
      log := s.log ++ record joined } := by
  refine ⟨?_, h.opened, h.incoming, h.permit, h.accepted, h.given, ?_, ?_⟩
  · show s.semaphore.permits + (s.tasks.eraseIdx i).countP SessionTask.live + s.permit.toNat = limit
    rw [live_eraseIdx hfound hover]
    exact h.permits
  · obtain ⟨hi, rfl⟩ := List.getElem?_eq_some_iff.mp hfound
    have hmoved : (s.joined ++ [s.tasks[i]] ++ s.tasks.eraseIdx i).Perm (s.joined ++ s.tasks) := by
      rw [List.append_assoc]
      exact (List.getElem_cons_eraseIdx_perm hi).append_left s.joined
    exact (hmoved.map SessionTask.connection).trans h.joined
  · intro task' htask'
    rcases List.mem_append.mp htask' with hold | hnew
    · exact h.finished task' hold
    · obtain rfl := List.mem_singleton.mp hnew
      rw [hover]
      rfl

/-- The step lemma. -/
theorem Orderly.step (h : Orderly limit s) (hstep : s.step event = some s') : Orderly limit s' := by
  cases step_cases hstep with
  | shutdown here => exact h.leave here _
  | acquire here hacquired => exact h.acquire here hacquired
  | refused here _ => exact h.leave (Or.inl here) _
  | failed e here => exact h.leave (Or.inr here) _
  | taken connection here => exact h.take here connection
  | spawn here hheld => exact h.spawn here hheld
  | ended _ hfound hlive => exact h.ended _ hfound hlive
  | reap _ hfound hover => exact h.reap hfound hover
  | close here =>
      obtain ⟨location, horizon, result, tasks, hclose, hpast, htasks⟩ := s.close_eq
      rw [hclose]
      exact h.past (by rw [here]; rfl) hpast htasks horizon result
  | expire here _ =>
      exact h.past (by rw [here]; rfl) rfl (Or.inr rfl) s.horizon s.result
  | return_ here _ =>
      apply h.past _ rfl (Or.inl rfl) s.horizon s.result
      rcases here with here | here <;> simp [here, Location.past]

end Invariant

/-! ## §6  The end of serving -/

/-- Until the drain begins, its deadline can be computed. -/
def Timely (s : Serving C) : Prop :=
  s.location.past = false ∨ s.location = .closing →
    (ServerOptions.deadline s.options.shutdownTimeout s.horizon).1 = .ok ()

/-- What is left to do behind the loops. -/
def remaining (s : Serving C) : ℕ :=
  s.live + s.tasks.length + match s.location with
    | .closing => 3
    | .draining => 2
    | .aborting => 1
    | _ => 0

section End

variable {s s' t : Serving C} {event : ServeEvent C} {events : List (ServeEvent C)} {limit : ℕ}

theorem close_timely (h : s.Timely) (here : s.location = .closing) :
    ∃ horizon, s.close = { s with location := .draining, horizon := horizon } := by
  have hok := h (Or.inr here)
  rcases hrun : ServerOptions.deadline s.options.shutdownTimeout s.horizon with ⟨o, horizon⟩
  rw [hrun] at hok
  obtain rfl : o = .ok () := hok
  exact ⟨horizon, by rw [close, hrun]⟩

theorem Timely.step (h : s.Timely) (hstep : s.step event = some s') : s'.Timely := by
  cases step_cases hstep with
  | shutdown here =>
      intro _
      apply h
      rcases here with here | here <;> simp [here, Location.past]
  | acquire here _ => exact fun _ => h (Or.inl (by rw [here]; rfl))
  | refused here _ => exact fun _ => h (Or.inl (by rw [here]; rfl))
  | failed e here => exact fun _ => h (Or.inl (by rw [here]; rfl))
  | taken connection here => exact fun _ => h (Or.inl (by rw [here]; rfl))
  | spawn here _ => exact fun _ => h (Or.inl (by rw [here]; rfl))
  | ended _ _ _ => exact h
  | reap _ _ _ => exact h
  | close here =>
      obtain ⟨horizon, hclose⟩ := close_timely h here
      rw [hclose]
      simp [Timely, Location.past]
  | expire _ _ => simp [Timely, Location.past]
  | return_ _ _ => simp [Timely, Location.past]

/-- What the outer loop is to break with after an event. -/
def stop : ServeEvent C → Option (Except ServerError Unit)
  | .shutdown => some (.ok ())
  | .accept (.error e) => some (.error (.transport e))
  | _ => none

theorem Ends.stop {i : ℕ} {joined : Joined} (h : Ends s event i joined) :
    Serving.stop event = none := by
  cases h <;> rfl

/-- What a step behind the loops leaves alone; it always gets nearer to the end. -/
structure Winding (s : Serving C) (event : ServeEvent C) (s' : Serving C) : Prop where
  past : s'.location.past = true
  started : s'.started = s.started
  taken : s'.taken = s.taken
  stop : Serving.stop event = none
  nearer : s'.remaining < s.remaining

theorem past_step (here : s.location.past = true) (hstep : s.step event = some s') :
    Winding s event s' := by
  cases step_cases hstep with
  | shutdown hloc => rcases hloc with hloc | hloc <;> simp [hloc, Location.past] at here
  | acquire hloc _ => simp [hloc, Location.past] at here
  | refused hloc _ => simp [hloc, Location.past] at here
  | failed e hloc => simp [hloc, Location.past] at here
  | taken connection hloc => simp [hloc, Location.past] at here
  | spawn hloc _ => simp [hloc, Location.past] at here
  | @ended _ _ joined _ hends hfound hlive =>
      refine ⟨here, rfl, rfl, hends.stop, ?_⟩
      have hless := live_set joined hfound hlive
      simp only [remaining, live, List.length_set]
      omega
  | reap _ hfound hdead =>
      refine ⟨here, rfl, rfl, rfl, ?_⟩
      obtain ⟨hi, -⟩ := List.getElem?_eq_some_iff.mp hfound
      have hlength := List.length_eraseIdx_of_lt hi
      simp only [remaining, live, live_eraseIdx hfound hdead, hlength]
      omega
  | close hloc =>
      unfold close
      split
      · refine ⟨rfl, rfl, rfl, rfl, ?_⟩
        simp only [remaining, live, live_abort, List.length_map, hloc]
        omega
      · refine ⟨rfl, rfl, rfl, rfl, ?_⟩
        simp only [remaining, live, hloc]
        omega
  | expire hloc _ =>
      refine ⟨rfl, rfl, rfl, rfl, ?_⟩
      simp only [remaining, live, live_abort, List.length_map, hloc]
      omega
  | return_ hloc _ =>
      refine ⟨rfl, rfl, rfl, rfl, ?_⟩
      rcases hloc with hloc | hloc <;> simp only [remaining, live, hloc] <;> omega

/-- A run so far: the loops are left by at most one event, and nothing is left when
`serve` has returned. -/
structure Accounted (limit : ℕ) (events : List (ServeEvent C)) (s : Serving C) : Prop where
  orderly : Orderly limit s
  timely : s.Timely
  stops : events.filterMap stop = if s.location.past then [s.result] else []
  idle : s.location = .returned → s.tasks = []

theorem filterMap_snoc (events : List (ServeEvent C)) (event : ServeEvent C) :
    (events ++ [event]).filterMap stop = events.filterMap stop ++ (stop event).toList := by
  rw [List.filterMap_append]
  cases h : stop event <;> simp [h]

theorem Accounted.stops_step (h : Accounted limit events s) (hstep : s.step event = some s') :
    (events ++ [event]).filterMap stop = if s'.location.past then [s'.result] else [] := by
  have hstops := h.stops
  rw [filterMap_snoc]
  cases step_cases hstep with
  | shutdown here =>
      have hpast : s.location.past = false := by rcases here with here | here <;> rw [here] <;> rfl
      rw [hpast] at hstops
      rw [hstops]
      rfl
  | acquire here _ =>
      rw [here] at hstops
      rw [hstops]
      rfl
  -- nothing closes the semaphore
  | refused _ hclosed => exact absurd (h.orderly.opened.symm.trans hclosed) (by simp)
  | failed e here =>
      rw [here] at hstops
      rw [hstops]
      rfl
  | taken connection here =>
      rw [here] at hstops
      rw [hstops]
      rfl
  | spawn here _ =>
      rw [here] at hstops
      rw [hstops]
      rfl
  | ended hends _ _ =>
      rw [hends.stop, Option.toList_none, List.append_nil]
      exact hstops
  | reap _ _ _ =>
      rw [hstops]
      exact List.append_nil _
  | close here =>
      obtain ⟨horizon, hclose⟩ := close_timely h.timely here
      rw [here] at hstops
      rw [hclose, hstops]
      rfl
  | expire here _ =>
      rw [here] at hstops
      rw [hstops]
      rfl
  | return_ here _ =>
      have hpast : s.location.past = true := by rcases here with here | here <;> rw [here] <;> rfl
      rw [hpast] at hstops
      rw [hstops]
      rfl

theorem Accounted.idle_step (h : Accounted limit events s) (hstep : s.step event = some s')
    (hreturned : s'.location = .returned) : s'.tasks = [] := by
  cases step_cases hstep with
  | shutdown _ => exact absurd hreturned (by simp [leave])
  | acquire _ _ => exact absurd hreturned (by simp)
  | refused _ _ => exact absurd hreturned (by simp [leave])
  | failed e _ => exact absurd hreturned (by simp [leave])
  | taken connection _ => exact absurd hreturned (by simp)
  | spawn _ _ => exact absurd hreturned (by simp)
  | ended _ hfound _ =>
      rw [h.idle hreturned] at hfound
      exact absurd hfound (by simp)
  | reap _ hfound _ =>
      rw [h.idle hreturned] at hfound
      exact absurd hfound (by simp)
  | close here =>
      obtain ⟨horizon, hclose⟩ := close_timely h.timely here
      rw [hclose] at hreturned
      exact absurd hreturned (by simp)
  | expire _ _ => exact absurd hreturned (by simp)
  | return_ _ hidle => exact hidle

theorem Accounted.step (h : Accounted limit events s) (hstep : s.step event = some s') :
    Accounted limit (events ++ [event]) s' :=
  ⟨h.orderly.step hstep, h.timely.step hstep, h.stops_step hstep, h.idle_step hstep⟩

theorem start_eq {options : ServerOptions} {horizon : List Bool}
    (h : start options horizon = .ok s) :
    s.options = options ∧ s.location = .acquiring ∧ s.semaphore = .new options.maxSessions ∧
      s.permit = false ∧ s.incoming = false ∧ s.accepted = none ∧ s.tasks = [] ∧ s.taken = [] ∧
      s.started = [] ∧ s.joined = [] := by
  obtain ⟨_, -, h⟩ := Outcome.bind_eq_ok.mp h
  obtain rfl := Outcome.ok.inj h
  exact ⟨rfl, rfl, rfl, rfl, rfl, rfl, rfl, rfl, rfl, rfl⟩

/-- The run lemma. -/
theorem accounted_run {options : ServerOptions} {horizon : List Bool}
    (hstart : start options horizon = .ok s)
    (hgrace : (ServerOptions.deadline options.shutdownTimeout s.horizon).1 = .ok ())
    (hrun : s.run events = some t) : Accounted options.maxSessions events t := by
  apply runSteps.history _ (fun events t event t' h => Accounted.step h) hrun
  obtain ⟨hoptions, hloc, hsemaphore, hpermit, hincoming, haccepted, htasks, htaken, hstarted,
    hjoined⟩ := start_eq hstart
  refine ⟨⟨?_, ?_, ?_, ?_, ?_, ?_, ?_, ?_⟩, ?_, ?_, ?_⟩
  · rw [hsemaphore, hpermit, live, htasks]
    rfl
  · rw [hsemaphore]
    rfl
  · simp [hincoming, hloc]
  · simp [hpermit, hloc]
  · simp [haccepted, hloc]
  · rw [htaken, hstarted, haccepted]
    rfl
  · rw [hjoined, htasks, hstarted]
    exact .nil
  · simp [hjoined]
  · intro _
    rw [hoptions]
    exact hgrace
  · rw [hloc]
    rfl
  · rw [hloc]
    simp

/-- From an event that leaves the loops on, no session is started. -/
theorem started_after_stop {before after : List (ServeEvent C)} {outcome : Except ServerError Unit}
    (hstop : stop event = some outcome) (hbefore : s.run before = some t)
    (hrun : s.run (before ++ event :: after) = some s') :
    s'.started = t.started ∧ s'.taken = t.taken := by
  obtain ⟨t', ht', hafter⟩ := runSteps.append_eq_some.mp hrun
  obtain rfl := Option.some.inj (hbefore.symm.trans ht')
  obtain ⟨left, hstep, hrest⟩ := runSteps.cons_eq_some.mp hafter
  have hleft : left.location.past = true ∧ left.started = t.started ∧ left.taken = t.taken := by
    cases step_cases hstep with
    | shutdown _ => exact ⟨rfl, rfl, rfl⟩
    | failed e _ => exact ⟨rfl, rfl, rfl⟩
    | ended hends _ _ => exact absurd (hends.stop.symm.trans hstop) (by simp)
    | _ => exact absurd hstop (by simp [stop])
  -- behind the loops, by induction on the rest of the run
  have hfinal : s'.location.past = true ∧ s'.started = t.started ∧ s'.taken = t.taken := by
    apply runSteps.invariant (I := fun u => u.location.past = true ∧ u.started = t.started ∧
      u.taken = t.taken) hleft _ hrest
    rintro u event u' ⟨hpast, hstarted, htaken⟩ hnow
    have w := past_step hpast hnow
    exact ⟨w.past, w.started.trans hstarted, w.taken.trans htaken⟩
  exact hfinal.2

/-- A connection that was taken waits for its session. -/
theorem accepted_step {connection : C} (h : Orderly limit s) (hheld : s.accepted = some connection)
    (hstep : s.step event = some s') :
    s'.accepted = some connection ∨ s'.started = s.started ++ [connection] := by
  have hspawning : s.location = .spawning := h.accepted.mp (by rw [hheld]; rfl)
  cases step_cases hstep with
  | shutdown here =>
      rcases here with here | here <;> exact absurd (hspawning.symm.trans here) (by simp)
  | taken _ here => exact absurd (hspawning.symm.trans here) (by simp)
  | spawn _ hheld' =>
      obtain rfl := Option.some.inj (hheld.symm.trans hheld')
      exact Or.inr rfl
  | close here => exact absurd (hspawning.symm.trans here) (by simp)
  | _ => exact Or.inl hheld

/-- **Bounded serving and a complete drain.** After any events, in any order: the
live sessions and a pending `accept` together never exceed `max_sessions`; an
`accept` is pending only while the loop owns a permit; every permit is free, with a
live session or with the loop; each connection that was taken is given to one
session, and none after the shutdown or a failed `accept`; and when `serve` has
returned, every session that was started has ended and been joined, and the result
is `Ok` after the shutdown and the error of `accept` otherwise. -/
theorem serve_bounded {options : ServerOptions} {horizon : List Bool}
    (hstart : start options horizon = .ok s)
    (hgrace : (ServerOptions.deadline options.shutdownTimeout s.horizon).1 = .ok ())
    (hrun : s.run events = some t) :
    t.live + t.incoming.toNat ≤ options.maxSessions ∧
    (t.incoming = true → t.permit = true) ∧
    t.semaphore.permits + (t.live + t.permit.toNat) = options.maxSessions ∧
    t.taken = t.started ++ t.accepted.toList ∧
    (∀ connection, t.accepted = some connection → ∀ event t', t.step event = some t' →
      t'.accepted = some connection ∨ t'.started = t.started ++ [connection]) ∧
    (∀ before event after u, events = before ++ event :: after →
      event = .shutdown ∨ (∃ e, event = .accept (.error e)) → s.run before = some u →
      t.started = u.started ∧ t.taken = u.taken) ∧
    (t.location = .returned → t.tasks = [] ∧ t.taken = t.started ∧
      (t.joined.map SessionTask.connection).Perm t.started ∧
      (∀ task ∈ t.joined, task.ended.isSome = true) ∧
      (.shutdown ∈ events ∨ ∃ e, .accept (.error e) ∈ events) ∧
      (.shutdown ∈ events → t.result = .ok ()) ∧
      ∀ e, .accept (.error e) ∈ events → t.result = .error (.transport e)) := by
  have h := accounted_run hstart hgrace hrun
  have hpermit : t.incoming = true → t.permit = true := fun hincoming =>
    h.orderly.permit.mpr (Or.inl (h.orderly.incoming.mp hincoming))
  have hsum := h.orderly.permits
  have hpending : t.incoming.toNat ≤ t.permit.toNat := by
    cases hincoming : t.incoming with
    | false => exact Nat.zero_le _
    | true => rw [hpermit hincoming]
  refine ⟨by omega, hpermit, by omega, h.orderly.given, ?_, ?_, ?_⟩
  · exact fun connection hheld event t' hstep => accepted_step h.orderly hheld hstep
  · rintro before event after u rfl hstop hbefore
    obtain ⟨outcome, houtcome⟩ : ∃ outcome, stop event = some outcome := by
      rcases hstop with rfl | ⟨e, rfl⟩
      · exact ⟨_, rfl⟩
      · exact ⟨_, rfl⟩
    exact started_after_stop houtcome hbefore hrun
  · intro hreturned
    have hidle := h.idle hreturned
    have hnone : t.accepted = none := by
      rw [← Option.not_isSome_iff_eq_none, h.orderly.accepted, hreturned]
      simp
    -- the loops were left by exactly one event
    have hstops : events.filterMap stop = [t.result] := by
      rw [h.stops, hreturned]
      rfl
    have hresult : ∀ event ∈ events, ∀ outcome, stop event = some outcome → t.result = outcome := by
      intro event hevent outcome houtcome
      have hmem : outcome ∈ events.filterMap stop := List.mem_filterMap.mpr ⟨event, hevent, houtcome⟩
      rw [hstops] at hmem
      exact (List.mem_singleton.mp hmem).symm
    have hgiven := h.orderly.given
    rw [hnone, Option.toList_none, List.append_nil] at hgiven
    have hjoined := h.orderly.joined
    rw [hidle, List.append_nil] at hjoined
    refine ⟨hidle, hgiven, hjoined, h.orderly.finished, ?_, fun hmem => hresult _ hmem _ rfl,
      fun e hmem => hresult _ hmem _ rfl⟩
    have hmem : t.result ∈ events.filterMap stop := by simp [hstops]
    obtain ⟨event, hevent, houtcome⟩ := List.mem_filterMap.mp hmem
    cases event with
    | shutdown => exact Or.inl hevent
    | accept result =>
        cases result with
        | error e => exact Or.inr ⟨e, hevent⟩
        | ok connection => exact absurd houtcome (by simp [stop])
    | _ => exact absurd houtcome (by simp [stop])

/-- One session at a time: the first panics, the second is still busy when the
grace period is over. -/
def panicThenAbort : List (ServeEvent ℕ) :=
  [.acquire, .accept (.ok 0), .spawn, .panic 0, .reap 0, .acquire, .accept (.ok 1), .spawn, .shutdown,
    .close, .expire, .cancel 0, .reap 0, .return_]

def oneSession : Serving ℕ :=
  ⟨⟨1, 1, 1, 1, 1, 1, 1⟩, [], .acquiring, .new 1, false, false, none, [], .ok (), [], [], [], []⟩

theorem serve_bounded_panic : start ⟨1, 1, 1, 1, 1, 1, 1⟩ [] = .ok oneSession ∧
    ∃ t, oneSession.run panicThenAbort = some t ∧ t.location = .returned ∧ t.tasks = [] ∧
      t.started = [0, 1] ∧ (t.joined.map SessionTask.connection).Perm t.started ∧
      t.result = .ok () := by
  have hvalid : ServerOptions.validate ⟨1, 1, 1, 1, 1, 1, 1⟩ [] = (.ok (), []) := by decide
  have hstart : start ⟨1, 1, 1, 1, 1, 1, 1⟩ [] = .ok oneSession := by
    rw [start, hvalid]
    rfl
  have hends : (oneSession.run panicThenAbort).map (fun t => (t.location, t.started)) =
      some (.returned, [0, 1]) := by decide +kernel
  obtain ⟨t, hrun, ht⟩ := Option.map_eq_some_iff.mp hends
  obtain ⟨hreturned, hstarted⟩ := Prod.mk.inj ht
  obtain ⟨-, -, -, -, -, -, hend⟩ := serve_bounded hstart (by decide) hrun
  obtain ⟨hidle, -, hjoined, -, -, hshutdown, -⟩ := hend hreturned
  exact ⟨hstart, t, hrun, hreturned, hidle, hstarted, hjoined,
    hshutdown (by simp [panicThenAbort])⟩

end End

/-! ## §7  The drain ends -/

/-- Once the grace period is over, every task is aborted. -/
def Aborted (s : Serving C) : Prop := s.location = .aborting → ∀ task ∈ s.tasks, task.aborted = true

section Drain

variable {s s' t : Serving C} {event : ServeEvent C} {events : List (ServeEvent C)}

/-- No run behind the loops is longer than what is left to do. -/
theorem drain_bounded (here : s.location.past = true) (hrun : s.run events = some t) :
    events.length + t.remaining ≤ s.remaining := by
  apply runSteps.length_le (I := fun u => u.location.past = true) here _ hrun
  intro u event u' hpast hstep
  have w := past_step hpast hstep
  exact ⟨w.past, w.nearer⟩

theorem Aborted.step (h : s.Aborted) (hstep : s.step event = some s') : s'.Aborted := by
  cases step_cases hstep with
  | shutdown _ => exact fun hloc => absurd hloc (by simp [leave])
  | acquire _ _ => exact fun hloc => absurd hloc (by simp)
  | refused _ _ => exact fun hloc => absurd hloc (by simp [leave])
  | failed e _ => exact fun hloc => absurd hloc (by simp [leave])
  | taken connection _ => exact fun hloc => absurd hloc (by simp)
  | spawn _ _ => exact fun hloc => absurd hloc (by simp)
  | @ended _ _ _ found _ hfound _ =>
      intro hloc task htask
      rcases List.mem_or_eq_of_mem_set htask with hold | rfl
      · exact h hloc task hold
      · exact h hloc found (List.mem_of_getElem? hfound)
  | reap _ _ _ => exact fun hloc task htask => h hloc task (List.mem_of_mem_eraseIdx htask)
  | close _ =>
      intro hloc
      unfold close at hloc
      split at hloc
      · exact absurd hloc (by simp)
      · exact absurd hloc (by simp)
  | expire _ _ =>
      intro _ task htask
      obtain ⟨task', -, rfl⟩ := List.mem_map.mp htask
      rfl
  | return_ _ _ => exact fun hloc => absurd hloc (by simp)

/-- The events that do not wait for a session. -/
def Own : ServeEvent C → Prop
  | .finish _ _ | .panic _ => False
  | _ => True

/-- Something can always be done, even if no session ends by itself. -/
theorem drain_progress (h : s.Aborted) (here : s.location.past = true)
    (hnot : s.location ≠ .returned) : ∃ event s', s.step event = some s' ∧ Own event := by
  cases hloc : s.location with
  | acquiring => simp [hloc, Location.past] at here
  | accepting => simp [hloc, Location.past] at here
  | spawning => simp [hloc, Location.past] at here
  | returned => exact absurd hloc hnot
  | closing => exact ⟨.close, s.close, if_pos hloc, trivial⟩
  | draining =>
      by_cases hidle : s.tasks = []
      · exact ⟨.return_, _, if_pos ⟨Or.inl hloc, hidle⟩, trivial⟩
      · exact ⟨.expire, _, if_pos ⟨hloc, hidle⟩, trivial⟩
  -- the head of the set has ended or can be cancelled
  | aborting =>
      cases htasks : s.tasks with
      | nil => exact ⟨.return_, _, if_pos ⟨Or.inr hloc, htasks⟩, trivial⟩
      | cons task tasks =>
          have hfound : s.tasks[0]? = some task := by rw [htasks, List.getElem?_cons_zero]
          cases hended : task.ended with
          | none =>
              have haborted : (s.tasks[0]?).any SessionTask.aborted = true := by
                rw [hfound]
                exact h hloc task (by rw [htasks]; exact List.mem_cons_self)
              have hlive : task.live = true := by rw [SessionTask.live, hended]; rfl
              have hend : s.endTask 0 .cancelled = some { s with
                  tasks := s.tasks.set 0 { task with ended := some .cancelled }
                  semaphore := s.semaphore.release } := by
                rw [endTask, hfound]
                exact if_pos hlive
              exact ⟨.cancel 0, _, (if_pos haborted).trans hend, trivial⟩
          | some joined =>
              have hjoin : s.joinNext 0 = some { s with
                  tasks := s.tasks.eraseIdx 0
                  joined := s.joined ++ [task]
                  log := s.log ++ record joined } := by
                rw [joinNext, hfound]
                simp only [hended]
              exact ⟨.reap 0, _, (if_pos (Or.inr (Or.inr (Or.inr hloc)))).trans hjoin, trivial⟩

theorem drain_returns (h : s.Aborted) (here : s.location.past = true) :
    ∃ events t, s.run events = some t ∧ t.location = .returned ∧ ∀ event ∈ events, Own event := by
  induction hn : s.remaining using Nat.strong_induction_on generalizing s with
  | _ n ih =>
      by_cases hreturned : s.location = .returned
      · exact ⟨[], s, rfl, hreturned, by simp⟩
      · obtain ⟨event, s', hstep, hown⟩ := drain_progress h here hreturned
        have w := past_step here hstep
        obtain ⟨events, t, hrun, hend, hall⟩ := ih s'.remaining (hn ▸ w.nearer) (h.step hstep) w.past
          rfl
        refine ⟨event :: events, t, runSteps.cons_eq_some.mpr ⟨s', hstep, hrun⟩, hend, ?_⟩
        rw [List.forall_mem_cons]
        exact ⟨hown, hall⟩

/-- **The drain ends.** Once the loops are left, `serve` can return without any
session ending by itself, and no order of events keeps it from returning for ever. -/
theorem serve_returns {options : ServerOptions} {horizon : List Bool}
    (hstart : start options horizon = .ok s) (hrun : s.run events = some t)
    (here : t.location.past = true) :
    (∃ more u, t.run more = some u ∧ u.location = .returned ∧ ∀ event ∈ more, Own event) ∧
    ∀ more u, t.run more = some u → more.length ≤ t.remaining := by
  have haborted : t.Aborted := by
    apply runSteps.invariant _ (fun u event u' h => Aborted.step h) hrun
    obtain ⟨-, hloc, -⟩ := start_eq hstart
    exact fun hloc' => absurd (hloc.symm.trans hloc') (by simp)
  refine ⟨drain_returns haborted here, fun more u hmore => ?_⟩
  exact Nat.le_trans (Nat.le_add_right _ _) (drain_bounded here hmore)

end Drain

end Serving

end Assuan
