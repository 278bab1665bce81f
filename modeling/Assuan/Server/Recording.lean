import Assuan.Foundation.Coupling
import Assuan.Server.Session

/-!
# A service that takes notes

`recording` wraps every hook and handler of a service so that it notes in the
application state when it was called and with what state, every operation it asks
its context for with the outcome, and how it returned. The wrapped service runs
exactly like the original one, so its notes say what the callbacks of the original
run did.
-/

namespace Assuan

open Assuan.Action (Coupled Matches)

/-! ## §1  Notes -/

/-- A call of a hook or a handler. -/
inductive Call : Type where
  | authenticate (authenticated : Bool)
  | option (request : OptionRequest) (authenticated : Bool)
  | reset (authenticated : Bool)
  | handler (name : String) (command : Command) (authenticated : Bool)
  | closed (reason : SessionEnd)

/-- What a callback asked of its context or of the guard of an inquiry, and what
came of it. -/
inductive ContextOperation : Type where
  | sendData (data : Bytes) (outcome : Outcome HandlerError Unit)
  | sendStatus (keyword : String) (args : Bytes) (outcome : Outcome HandlerError Unit)
  | inquire (keyword : String) (args : Bytes) (sensitivity : Sensitivity)
      (outcome : Outcome HandlerError Unit)
  | next (outcome : Outcome HandlerError (Option PayloadRef))
  | finish (outcome : Outcome HandlerError InquiryOutcome)
  | drop
  | forget

inductive Note (S : Type) : Type where
  | call (call : Call) (state : S)
  | asked (operation : ContextOperation)
  | returned (result : Except HandlerError Unit) (state : S)
  | expired (state : S)
  | closed (outcome : Outcome HandlerError Unit) (state : S)

namespace Note

variable {S : Type}

def call? : Note S → Option Call
  | .call made _ => some made
  | .asked _ => none
  | .returned _ _ => none
  | .expired _ => none
  | .closed _ _ => none

/-- A callback is given the state that is there. -/
def Fits (state : S) : Note S → Prop
  | .call _ given => given = state
  | .asked _ => True
  | .returned _ _ => True
  | .expired _ => True
  | .closed _ _ => True

/-- The state behind the note. -/
def leaves (state : S) : Note S → S
  | .call _ _ => state
  | .asked _ => state
  | .returned _ left => left
  | .expired left => left
  | .closed _ left => left

end Note

/-- The notes lead from one state to another, each callback taking up what the one
before it left. -/
def Threads {S : Type} : S → List (Note S) → S → Prop
  | state, [], last => last = state
  | state, note :: notes, last => note.Fits state ∧ Threads (note.leaves state) notes last

theorem threads_append {S : Type} {state last : S} {notes notes' : List (Note S)} :
    Threads state (notes ++ notes') last ↔
      ∃ middle, Threads state notes middle ∧ Threads middle notes' last := by
  induction notes generalizing state with
  | nil => exact ⟨fun h => ⟨state, rfl, h⟩, fun ⟨_, heq, h⟩ => heq ▸ h⟩
  | cons note notes ih =>
      rw [List.cons_append, Threads, ih]
      constructor
      · rintro ⟨hfits, middle, hfirst, hrest⟩
        exact ⟨middle, ⟨hfits, hfirst⟩, hrest⟩
      · rintro ⟨middle, ⟨hfits, hfirst⟩, hrest⟩
        exact ⟨hfits, middle, hfirst, hrest⟩

/-! ## §2  Recording -/

namespace Program

variable {S : Type}

/-- The same program with a note behind `notes` for every operation, once its outcome
is known, and for its return. -/
def transcribe : {mode : Mode} → Program S mode → List (Note S) → Program (S × List (Note S)) mode
  | _, .done result state, notes => .done result (state, notes ++ [.returned result state])
  | _, .expire state, notes => .expire (state, notes ++ [.expired state])
  | _, .sendData data k, notes =>
      .sendData data fun o => (k o).transcribe (notes ++ [.asked (.sendData data o)])
  | _, .sendStatus keyword args k, notes =>
      .sendStatus keyword args fun o =>
        (k o).transcribe (notes ++ [.asked (.sendStatus keyword args o)])
  | _, .inquire keyword args sensitivity opened failed, notes =>
      .inquire keyword args sensitivity
        (opened.transcribe (notes ++ [.asked (.inquire keyword args sensitivity (.ok ()))]))
        fun o => (failed o).transcribe (notes ++ [.asked (.inquire keyword args sensitivity o)])
  | _, .next k, notes => .next fun o => (k o).transcribe (notes ++ [.asked (.next o)])
  | _, .finish k, notes => .finish fun o => (k o).transcribe (notes ++ [.asked (.finish o)])
  | _, .drop k, notes => .drop (k.transcribe (notes ++ [.asked .drop]))
  | _, .forget k, notes => .forget (k.transcribe (notes ++ [.asked .forget]))

/-- The notes of one callback, from the first operation to its end: there is no call
among them, and they leave the state that the callback leaves. -/
structure Own (own : List (Note S)) (left : S) : Prop where
  calls : own.filterMap Note.call? = []
  threads : ∀ state, Threads state own left

theorem Own.asked {own : List (Note S)} {left : S} (operation : ContextOperation)
    (h : Own own left) : Own (.asked operation :: own) left :=
  ⟨h.calls, fun state => ⟨trivial, h.threads state⟩⟩

/-- The end of a callback, with the notes that were made on the way. -/
def Transcribed (notes : List (Note S)) (report : Report S) (noted : Report (S × List (Note S))) :
    Prop :=
  ∃ own, Own own report.state ∧
    noted = ⟨report.result, (report.state, notes ++ own), report.faulty, report.link⟩

theorem Transcribed.asked {notes : List (Note S)} {operation : ContextOperation} {report : Report S}
    {noted : Report (S × List (Note S))}
    (h : Transcribed (notes ++ [.asked operation]) report noted) :
    Transcribed notes report noted := by
  obtain ⟨own, hown, rfl⟩ := h
  exact ⟨.asked operation :: own, hown.asked operation, by rw [List.append_assoc]; rfl⟩

/-- The notes are all that is different. -/
theorem run_transcribe (limit : ℕ) {mode : Mode} (p : Program S mode) :
    ∀ (notes : List (Note S)) (held : Held mode) (faulty : Bool),
      Transcribed notes (p.run limit held faulty) ((p.transcribe notes).run limit held faulty) := by
  induction p with
  | done result state =>
      intro notes link faulty
      exact ⟨[.returned result state], ⟨rfl, fun _ => ⟨trivial, rfl⟩⟩, rfl⟩
  | expire state =>
      intro notes link faulty
      exact ⟨[.expired state], ⟨rfl, fun _ => ⟨trivial, rfl⟩⟩, rfl⟩
  | sendData data k ih =>
      intro notes link faulty
      exact (ih _ _ _ _).asked
  | sendStatus keyword args k ih =>
      intro notes link faulty
      exact (ih _ _ _ _).asked
  | inquire keyword args sensitivity opened failed ihopened ihfailed =>
      intro notes link faulty
      simp only [transcribe, run]
      split
      · exact (ihopened _ _ _).asked
      · exact (ihfailed _ _ _ _).asked
  | next k ih =>
      intro notes inquiry faulty
      exact (ih _ _ _ _).asked
  | finish k ih =>
      intro notes inquiry faulty
      exact (ih _ _ _ _).asked
  | drop k ih =>
      intro notes inquiry faulty
      exact (ih _ _ _).asked
  | forget k ih =>
      intro notes inquiry faulty
      exact (ih _ _ _).asked

end Program

/-- A registry with the same names. -/
def Registry.map {κ κ' : Type} (f : Handler κ → κ') (registry : Registry κ) : Registry κ' where
  handlers := registry.handlers.map fun entry =>
    (entry.1, ⟨entry.2.name, entry.2.description, f entry.2⟩)
  nodup := by
    rw [List.map_map]
    exact registry.nodup

section Recording

variable {S : Type}

/-- The callback on the original state, with notes of its call and of what it does
behind those that have been made. -/
def noteCall (call : Bool → Call) (body : CommandContext S → Program S .context)
    (context : CommandContext (S × List (Note S))) : Program (S × List (Note S)) .context :=
  (body ⟨context.state.1, context.authenticated⟩).transcribe
    (context.state.2 ++ [.call (call context.authenticated) context.state.1])

/-- The handler, with a note under its own name. -/
def noteHandler (handler : Handler (Command → CommandContext S → Program S .context))
    (command : Command) :
    CommandContext (S × List (Note S)) → Program (S × List (Note S)) .context :=
  noteCall (.handler handler.name command) (handler.call command)

/-- The close hook, with notes of its call and its outcome. -/
def noteClosed (closed : S → SessionEnd → Outcome HandlerError Unit × S)
    (state : S × List (Note S)) (reason : SessionEnd) :
    Outcome HandlerError Unit × S × List (Note S) :=
  ((closed state.1 reason).1, (closed state.1 reason).2, state.2 ++
    [.call (.closed reason) state.1, .closed (closed state.1 reason).1 (closed state.1 reason).2])

def Service.recording (service : Service S) : Service (S × List (Note S)) where
  registry := service.registry.map noteHandler
  hooks :=
    { authenticate := noteCall .authenticate service.hooks.authenticate
      option := fun request => noteCall (.option request) (service.hooks.option request)
      reset := noteCall .reset service.hooks.reset
      closed := noteClosed service.hooks.closed }
  options := service.options
  listing := fun state => service.listing state.1
  listing_names := by
    intro state
    show ((service.listing state.1).map Prod.fst).Perm
      ((service.registry.handlers.map _).map Prod.fst)
    rw [List.map_map]
    exact service.listing_names state.1

end Recording

theorem route_map {κ κ' : Type} (f : Handler κ → κ') (registry : Registry κ) (name : String) :
    route (registry.map f) name = match route registry name with
      | .nothing => .nothing
      | .help => .help
      | .option => .option
      | .reset => .reset
      | .handler handler => .handler ⟨handler.name, handler.description, f handler⟩
      | .unknown => .unknown := by
  have hget : (registry.map f).get name = (registry.get name).map fun handler =>
      ⟨handler.name, handler.description, f handler⟩ := by
    simp only [Registry.get, Registry.map, List.find?_map, Option.map_map, Function.comp_def]
  unfold route
  rw [hget]
  by_cases hnothing : name = "NOP" ∨ name = "BYE"
  · simp only [if_pos hnothing]
  simp only [if_neg hnothing]
  by_cases hhelp : name = "HELP"
  · simp only [if_pos hhelp]
  simp only [if_neg hhelp]
  by_cases hoption : name = "OPTION"
  · simp only [if_pos hoption]
  simp only [if_neg hoption]
  by_cases hreset : name = "RESET"
  · simp only [if_pos hreset]
  simp only [if_neg hreset]
  cases registry.get name with
  | none => rfl
  | some handler => rfl

/-! ## §3  The notes change nothing -/

/-- A session of the recording service. -/
abbrev Noted (S : Type) : Type := Session (S × List (Note S))

namespace Session

section Plain

variable {S α : Type}

/-- The session of the original service. -/
def plain (session : Noted S) : Session S where
  link := session.link
  state := session.state.1
  authenticated := session.authenticated
  horizon := session.horizon
  past := session.past
  opener := session.opener
  mark := session.mark
  result := session.result
  faulty := session.faulty

/-- The session with notes. -/
def withNotes (notes : List (Note S)) (session : Session S) : Noted S where
  link := session.link
  state := (session.state, notes)
  authenticated := session.authenticated
  horizon := session.horizon
  past := session.past
  opener := session.opener
  mark := session.mark
  result := session.result
  faulty := session.faulty

/-- The original session beside the one with the notes. -/
def Plain (noted : Noted S) (session : Session S) : Prop := noted.plain = session

theorem plain_lift (o : Outcome ServerError α) :
    Matches Plain Plain (Action.lift o : Action (Noted S) ServerError α)
      (Action.lift o : Action (Session S) ServerError α) :=
  Action.matches_lift (fun _ _ h => h) o

theorem plain_onLink (x : Action Link HandlerError α) :
    Matches (Plain (S := S)) Plain (onLink x) (onLink x) := by
  rintro noted _ rfl
  apply Coupled.mapErr
  have hx : Coupled Eq (fun _ => Eq) (x noted.link) (x noted.plain.link) := by
    show Coupled Eq (fun _ => Eq) (x noted.link) (x noted.link)
    rcases x noted.link with ⟨o, link⟩
    rcases o.ok_or_failed with ⟨a, rfl⟩ | ho
    · exact .ok rfl
    · exact .failed ho rfl
  apply Coupled.zoom hx
  · rintro link _ rfl
    rfl
  · rintro _ link _ rfl
    rfl

theorem plain_deadline (duration : ℕ) :
    Matches (Plain (S := S)) Plain (deadline duration) (deadline duration) := by
  rintro noted _ rfl
  have hhorizon : noted.plain.horizon = noted.horizon := rfl
  unfold deadline
  rw [hhorizon]
  by_cases hzero : duration = 0
  · rw [if_pos hzero, if_pos hzero]
    exact .failed (by simp) rfl
  · rw [if_neg hzero, if_neg hzero]
    by_cases hover : noted.horizon.headD false = true
    · rw [if_pos hover]
      exact .failed (by simp) rfl
    · rw [if_neg hover]
      exact .ok rfl

theorem plain_validate (options : ServerOptions) :
    Matches (Plain (S := S)) Plain (validate options) (validate options) := by
  unfold validate
  split
  · exact plain_lift _
  · apply Matches.forEach
    intro duration _
    exact plain_deadline duration

theorem plain_settle (result : Except HandlerError Unit) :
    Matches (Plain (S := S)) Plain (settle result) (settle result) := by
  rintro noted _ rfl
  exact .ok rfl

theorem plain_callback (limit : ℕ) (call : Bool → Call)
    (body : CommandContext S → Program S .context) :
    Matches Plain Plain (callback limit (noteCall call body)) (callback limit body) := by
  rintro noted _ rfl
  have hbody : noted.plain.state = noted.state.1 ∧ noted.plain.authenticated = noted.authenticated ∧
      noted.plain.link = noted.link := ⟨rfl, rfl, rfl⟩
  obtain ⟨own, -, hnoted⟩ := Program.run_transcribe limit
    (body ⟨noted.state.1, noted.authenticated⟩)
    (noted.state.2 ++ [.call (call noted.authenticated) noted.state.1]) noted.link false
  unfold callback noteCall
  simp only [hnoted, hbody]
  cases ((body ⟨noted.state.1, noted.authenticated⟩).run limit noted.link false).result with
  | some result => exact .ok rfl
  | none => exact .failed (by simp) rfl

theorem plain_help (entries : List (String × String)) :
    Matches (Plain (S := S)) Plain (help entries) (help entries) := by
  rintro noted _ rfl
  have hlink : noted.plain.link = noted.link := rfl
  unfold help
  rw [hlink]
  rcases Link.help entries noted.link with ⟨o, link⟩
  cases o with
  | ok u => exact .ok rfl
  | err e => exact .ok rfl
  | panic => exact .failed (by simp) rfl
  | dropped => exact .failed (by simp) rfl

theorem plain_dispatch (service : Service S) (command : Command) :
    Matches Plain Plain (dispatch service.recording command) (dispatch service command) := by
  unfold dispatch
  have hroute : route service.recording.registry command.name = _ :=
    route_map noteHandler service.registry command.name
  simp only [hroute]
  cases route service.registry command.name with
  | nothing => exact plain_settle _
  | help =>
      rintro noted _ rfl
      exact plain_help _ _ _ rfl
  | option =>
      cases OptionRequest.parse command.args with
      | ok request => exact plain_callback _ (.option request) _
      | err e => exact plain_settle _
      | panic => exact plain_settle _
      | dropped => exact plain_settle _
  | reset => exact plain_callback _ .reset _
  | handler handler => exact plain_callback _ (.handler handler.name command) _
  | unknown => exact plain_settle _

theorem plain_finalize (result : Except HandlerError Unit) (greeting : Bool) :
    Matches (Plain (S := S)) Plain (finalize result greeting) (finalize result greeting) := by
  unfold finalize
  apply Matches.bind (plain_lift _)
  intro _
  apply Action.matches_get
  rintro noted _ rfl
  refine Matches.bind (plain_lift _) (fun _ => ?_) noted noted.plain rfl
  apply Matches.bind (plain_lift _)
  intro line
  apply Matches.bind (plain_lift _)
  intro bytes
  apply Matches.bind (plain_onLink _)
  intro _
  apply Matches.bind (plain_onLink _)
  intro _
  exact plain_lift _

theorem plain_nextCommand (fuel : ℕ) :
    Matches (Plain (S := S)) Plain (nextCommand fuel) (nextCommand fuel) := by
  induction fuel with
  | zero => exact plain_lift _
  | succ fuel ih =>
      rw [nextCommand, nextCommand]
      apply Matches.bind (plain_onLink _)
      intro line
      cases line with
      | none => exact Action.matches_pure none
      | some line =>
          apply Matches.bind (plain_lift _)
          intro kind
          apply Matches.bind (plain_onLink _)
          intro _
          split
          · exact ih
          · exact Action.matches_pure (some line)

theorem plain_answer (service : Service S) (line : Bytes) :
    Matches Plain Plain (answer service.recording line) (answer service line) := by
  unfold answer
  apply Matches.bind
  · apply Action.matches_modify
    rintro noted _ rfl
    rfl
  intro _
  apply Matches.bind (plain_lift _)
  intro command
  apply Matches.bind (plain_deadline _)
  intro _
  apply Matches.bind (plain_dispatch service command)
  intro result
  apply Matches.bind (plain_finalize result false)
  intro _
  exact Action.matches_pure _

theorem plain_serve (service : Service S) (rounds : ℕ) :
    Matches Plain Plain (serve service.recording rounds) (serve service rounds) := by
  induction rounds with
  | zero => exact plain_lift _
  | succ rounds ih =>
      rw [serve, serve]
      apply Matches.bind (plain_deadline _)
      intro _
      apply Action.matches_get
      rintro noted _ rfl
      refine Matches.bind (plain_nextCommand _) (fun line => ?_) noted noted.plain rfl
      cases line with
      | none => exact Action.matches_pure ()
      | some line =>
          apply Matches.bind (plain_answer service line)
          intro closing
          split
          · exact Action.matches_pure ()
          · exact ih

theorem plain_drive (service : Service S) (rounds : ℕ) :
    Matches Plain Plain (drive service.recording rounds) (drive service rounds) := by
  unfold drive
  apply Matches.bind (plain_deadline _)
  intro _
  apply Matches.bind (plain_callback _ .authenticate _)
  intro auth
  apply Matches.bind (plain_finalize auth true)
  intro _
  apply Matches.bind
  · apply Action.matches_modify
    rintro noted _ rfl
    rfl
  intro _
  exact plain_serve service rounds

theorem plain_closing (service : Service S) (result : Outcome ServerError Unit) :
    Matches Plain Plain (closing service.recording result) (closing service result) := by
  unfold closing
  apply Matches.bind (plain_deadline _)
  intro _
  apply Action.matches_get
  rintro noted _ rfl
  apply Action.coupled_modify_bind
  exact plain_lift _ _ _ rfl

theorem plain_run (service : Service S) (rounds : ℕ) :
    Matches Plain Plain (run service.recording rounds) (run service rounds) := by
  unfold run
  apply Matches.bind (plain_validate _)
  rintro _ noted _ rfl
  have hdrive := plain_drive service rounds noted noted.plain rfl
  rcases hx : drive service.recording rounds noted with ⟨result, noted'⟩
  rcases hy : drive service rounds noted.plain with ⟨result', session⟩
  rw [hx, hy] at hdrive
  obtain rfl : result = result' := hdrive.outcome
  obtain rfl : noted'.plain = session := hdrive.states fun _ _ _ h => h
  beta_reduce
  rw [hx, hy]
  cases result with
  | ok u => exact plain_closing service _ _ _ rfl
  | err e => exact plain_closing service _ _ _ rfl
  | panic => exact .failed (by simp) rfl
  | dropped => exact .failed (by simp) rfl

/-- The session ends in `o` as `ended`, and `notes` tell of each of its callbacks with
what it was called, what it asked for and was answered, and what it returned. -/
def RunsTo (service : Service S) (rounds : ℕ) (session : Session S) (notes : List (Note S))
    (o : Outcome ServerError Unit) (ended : Session S) : Prop :=
  run service rounds session = (o, ended) ∧
    run service.recording rounds (session.withNotes []) = (o, ended.withNotes notes)

/-- A recorded session runs like the original one. -/
theorem runsTo (service : Service S) (rounds : ℕ) (session : Session S) :
    RunsTo service rounds session
      (run service.recording rounds (session.withNotes [])).2.state.2
      (run service rounds session).1 (run service rounds session).2 := by
  have hrun := plain_run service rounds (session.withNotes []) session rfl
  have hplain : (run service.recording rounds (session.withNotes [])).2.plain =
      (run service rounds session).2 := hrun.states fun _ _ _ h => h
  exact ⟨rfl, Prod.ext hrun.outcome (by rw [← hplain]; rfl)⟩

end Plain

end Session

end Assuan
