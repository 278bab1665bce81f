import Assuan.Server.Discipline
import Assuan.Server.Recording

/-!
# Which callbacks run, and when

The notes of a recorded session tell which callbacks have run, in which order, with
which `authenticated` flag and in which state: `authenticate` first and before
everything else, then at most one callback for each command line, and the close hook
last.
-/

namespace Assuan

open Assuan.Action (Keeps)

namespace Session

/-! ## §1  What is called -/

variable {S : Type}

/-- The command lines whose blocks are finished. -/
def earlier (session : Session S) : List Bytes := (session.past.map Block.opener).filterMap id

/-- The command lines so far. -/
def commands (session : Session S) : List Bytes := session.earlier ++ session.opener.toList

/-- The results of the blocks so far; the first one is that of the greeting. -/
def results (session : Session S) : List (Option (Except HandlerError Unit)) :=
  session.past.map Block.result ++ [session.result]

/-- The call that a command line leads to, if it leads to one. -/
def callOf (service : Service S) (line : Bytes) : Option Call :=
  match Command.parse line with
  | .ok command =>
      match route service.registry command.name with
      | .option =>
          match OptionRequest.parse command.args with
          | .ok request => some (.option request true)
          | _ => none
      | .reset => some (.reset true)
      | .handler handler => some (.handler handler.name command true)
      | .nothing | .help | .unknown => none
  | _ => none

/-- The calls among the notes, and how the state has gone from one to the next. -/
structure Logged (init : S) (calls : List Call) (state : S × List (Note S)) : Prop where
  calls : state.2.filterMap Note.call? = calls
  threads : Threads init state.2 state.1

/-- A callback that was given the state and has left another one. -/
theorem Logged.callback {init left : S} {calls : List Call} {state : S × List (Note S)}
    {own : List (Note S)} (h : Logged init calls state) (call : Call)
    (hown : Program.Own own left) :
    Logged init (calls ++ [call]) (left, state.2 ++ [.call call state.1] ++ own) := by
  constructor
  · rw [List.filterMap_append, List.filterMap_append, h.calls, hown.calls, List.append_nil]
    rfl
  · rw [threads_append]
    refine ⟨state.1, threads_append.mpr ⟨state.1, h.threads, ?_⟩, hown.threads _⟩
    exact ⟨rfl, rfl⟩

/-- A command has been read and not yet dispatched. -/
structure Opened (init : S) (service : Service S) (line : Bytes) (session : Noted S) :
    Prop where
  authenticated : session.authenticated = true
  greeted : (session.past.map Block.result).head? = some (some (.ok ()))
  opener : session.opener = some line
  log : Logged init (.authenticate false :: session.earlier.filterMap (callOf service))
    session.state

/-- Every command so far has had its call. -/
structure Called (init : S) (service : Service S) (session : Noted S) : Prop where
  authenticated : session.authenticated = true
  greeted : session.results.head? = some (some (.ok ()))
  log : Logged init (.authenticate false :: session.commands.filterMap (callOf service))
    session.state

section Calls

variable {init : S} {service : Service S} {line : Bytes} {noted noted' : Noted S}

/-- Without a call the record of the commands is all that changes. -/
theorem Called.opened (h : Called init service noted) (line : Bytes) :
    Opened init service line (openBlock line noted) := by
  have hpast : (openBlock line noted).past = noted.past ++ [noted.current] := rfl
  refine ⟨h.authenticated, ?_, rfl, ?_⟩
  · rw [hpast, List.map_append]
    exact h.greeted
  · rw [earlier, hpast, List.map_append, List.filterMap_append]
    show Logged init (_ :: (noted.earlier ++ [noted.opener].filterMap id).filterMap _) noted.state
    have hlast : [noted.opener].filterMap id = noted.opener.toList := by
      cases noted.opener <;> rfl
    rw [hlast]
    exact h.log

/-- What neither the link nor the instants can change. -/
def Blind {T : Type} (I : Session T → Prop) : Prop :=
  ∀ session link horizon, I session → I { session with link := link, horizon := horizon }

section Blind

variable {T α : Type} {I : Session T → Prop}

theorem Blind.onLink (hI : Blind I) (x : Action Link HandlerError α) : Keeps I (onLink x) :=
  fun session h => hI session _ session.horizon h

theorem Blind.deadline (hI : Blind I) (duration : ℕ) : Keeps I (deadline duration) := by
  intro session h
  unfold Session.deadline
  split
  · exact h
  · exact hI session session.link _ h

theorem Blind.validate (hI : Blind I) (options : ServerOptions) : Keeps I (validate options) := by
  unfold Session.validate
  split
  · exact Action.keeps_lift _
  · exact Keeps.forEach fun duration _ => hI.deadline duration

theorem Blind.finalize (hI : Blind I) (result : Except HandlerError Unit) (greeting : Bool) :
    Keeps I (finalize result greeting) := by
  unfold Session.finalize
  refine Keeps.bind (Action.keeps_lift _) fun _ => ?_
  refine Keeps.bind Action.keeps_get fun session => ?_
  refine Keeps.bind (Action.keeps_lift _) fun _ => ?_
  refine Keeps.bind (Action.keeps_lift _) fun line => ?_
  refine Keeps.bind (Action.keeps_lift _) fun bytes => ?_
  refine Keeps.bind (hI.onLink _) fun _ => ?_
  refine Keeps.bind (hI.onLink _) fun _ => ?_
  exact Action.keeps_lift _

theorem Blind.nextCommand (hI : Blind I) (fuel : ℕ) : Keeps I (nextCommand fuel) := by
  induction fuel with
  | zero => exact Action.keeps_lift _
  | succ fuel ih =>
      rw [Session.nextCommand]
      refine Keeps.bind (hI.onLink _) fun line => ?_
      cases line with
      | none => exact Action.keeps_pure none
      | some line =>
          simp only
          refine Keeps.bind (Action.keeps_lift _) fun kind => ?_
          refine Keeps.bind (hI.onLink _) fun _ => ?_
          split
          · exact ih
          · exact Action.keeps_pure (some line)

end Blind

/-- The commands have had their calls, but for the last one if the session ended
before it was dispatched. -/
def Served (init : S) (service : Service S) (failed : Prop) (noted : Noted S) : Prop :=
  Called init service noted ∨ failed ∧ ∃ line, Opened init service line noted

/-- No command has been read, and `calls` are the calls so far. -/
structure Starting (init : S) (calls : List Call) (noted : Noted S) : Prop where
  log : Logged init calls noted.state
  past : noted.past = []
  opener : noted.opener = none

theorem Starting.commands {calls : List Call} (h : Starting init calls noted) :
    noted.commands = [] := by
  show (noted.past.map Block.opener).filterMap id ++ noted.opener.toList = []
  rw [h.past, h.opener]
  rfl

/-- How far `drive` has come. -/
def Driven (init : S) (service : Service S) (failed : Prop)
    (noted : Noted S) : Prop :=
  failed ∧ Starting init [] noted ∨ failed ∧ Starting init [.authenticate false] noted ∨
    Served init service failed noted

/-- The options of a session are refused, or when it has been driven the deadline of its
close hook is. -/
def OptionsRefused (service : Service S) (rounds : ℕ) (session : Session S) : Prop :=
  (validate service.options session).1 = .err .invalidOptions ∨
    (deadline service.options.shutdownTimeout
      (drive service rounds (validate service.options session).2).2).1 = .err .invalidOptions

/-- The commands of a session that ended in `o` are the command lines that it has read. -/
structure CommandsRead (session : Session S) (o : Outcome ServerError Unit) : Prop where
  first : session.commands <+:
    commandLines (splitAfter lf (Channel.arrived session.link.channel.trace)).1
  all : o = .ok () → session.commands =
    throughBye (commandLines (splitAfter lf (Channel.arrived session.link.channel.trace)).1)

theorem Ended.read {session : Session S} {o : Outcome ServerError Unit}
    (h : Ended o.Failed session) : CommandsRead session o := by
  obtain ⟨before, opened, hhistory, hheard, hall, -⟩ := h
  have hcommands : session.commands = opened := by
    have hlast : [session.opener].filterMap id = session.opener.toList := by
      cases session.opener <;> rfl
    rw [Session.commands, earlier, ← hlast, ← List.filterMap_append, hhistory.openers]
    simp
  constructor
  · rw [hcommands]
    exact hheard.first
  · rintro rfl
    rw [hcommands]
    exact hall (by simp)

theorem Driven.calls {failed : Prop} (h : Driven init service failed noted) :
    ∃ start dispatched, Logged init (start ++ dispatched.filterMap (callOf service)) noted.state ∧
      (start = [] ∨ start = [.authenticate false]) ∧
      (dispatched = noted.commands ∨ failed ∧ dispatched = noted.commands.dropLast) ∧
      (noted.commands ≠ [] → start = [.authenticate false] ∧ noted.authenticated = true ∧
        noted.results.head? = some (some (.ok ()))) ∧
      (¬ failed → start = [.authenticate false] ∧ dispatched = noted.commands) := by
  rcases h with ⟨hfailed, hs⟩ | ⟨hfailed, hs⟩ | hs | ⟨hfailed, line, hs⟩
  · refine ⟨[], [], hs.log, Or.inl rfl, Or.inl hs.commands.symm, ?_, ?_⟩
    · exact fun hne => absurd hs.commands hne
    · exact fun hnot => absurd hfailed hnot
  · refine ⟨[.authenticate false], [], hs.log, Or.inr rfl, Or.inl hs.commands.symm, ?_, ?_⟩
    · exact fun hne => absurd hs.commands hne
    · exact fun hnot => absurd hfailed hnot
  · exact ⟨[.authenticate false], noted.commands, hs.log, Or.inr rfl, Or.inl rfl,
      fun _ => ⟨rfl, hs.authenticated, hs.greeted⟩, fun _ => ⟨rfl, rfl⟩⟩
  · have hcommands : noted.commands = noted.earlier ++ [line] := by
      rw [Session.commands, hs.opener]
      rfl
    refine ⟨[.authenticate false], noted.earlier, hs.log, Or.inr rfl, Or.inr ⟨hfailed, ?_⟩, ?_, ?_⟩
    · rw [hcommands, List.dropLast_concat]
    · intro _
      refine ⟨rfl, hs.authenticated, ?_⟩
      rw [results, List.head?_append, hs.greeted]
      rfl
    · exact fun hnot => absurd hfailed hnot

theorem Logged.closed {calls : List Call} {state : S × List (Note S)} (h : Logged init calls state)
    (closed : S → SessionEnd → Outcome HandlerError Unit × S) (reason : SessionEnd) :
    Logged init (calls ++ [.closed reason]) (noteClosed closed state reason).2 := by
  constructor
  · show (state.2 ++ [_, _]).filterMap Note.call? = _
    rw [List.filterMap_append, h.calls]
    rfl
  · exact threads_append.mpr ⟨state.1, h.threads, rfl, trivial, rfl⟩

section Whole

variable {rounds : ℕ} {session : Session S}

/-- What refuses the recorded session refuses the original one. -/
theorem OptionsRefused.plain (h : OptionsRefused service.recording rounds noted) :
    OptionsRefused service rounds noted.plain := by
  have hvalidate := plain_validate service.options noted noted.plain rfl
  have hvalidated : (validate service.options noted).2.plain =
      (validate service.options noted.plain).2 := hvalidate.states fun _ _ _ h => h
  have hdriven : (drive service.recording rounds (validate service.options noted).2).2.plain =
      (drive service rounds (validate service.options noted.plain).2).2 :=
    (plain_drive service rounds _ _ hvalidated).states fun _ _ _ h => h
  have hdeadline := plain_deadline service.options.shutdownTimeout _ _ hdriven
  exact h.imp hvalidate.outcome.symm.trans hdeadline.outcome.symm.trans

end Whole

end Calls

end Session

end Assuan
