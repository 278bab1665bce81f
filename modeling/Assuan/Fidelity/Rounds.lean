import Assuan.Fidelity.Acts

/-!
# A server through its rounds

A round is one command with what is done for it and its final response. Over a
stream without faults a session greets, goes through its rounds and ends, and the
bytes it takes and writes are those of the rounds.
-/

namespace Assuan

open Channel LineBuffer

/-! ## §1  Rounds -/

structure CommandRound : Type where
  command : Command
  acts : List Act
  code : Option UInt32
  text : Bytes

/-- The lines of the client. -/
def CommandRound.request (round : CommandRound) : List Bytes :=
  (commandBody round.command ++ [lf]) :: round.acts.flatMap Act.replies

/-- The lines of the server. -/
def CommandRound.response (round : CommandRound) : List Bytes :=
  round.acts.flatMap Act.lines ++ [responseBody (finalOf round.code round.text) ++ [lf]]

/-- The command fits on a line and is not taken for an answer, and all that is sent
for it can be encoded. -/
structure CommandRound.Valid (limit : ℕ) (round : CommandRound) : Prop where
  name : round.command.name ∉ protocolNames
  fits : (commandBody round.command).length + 1 ≤ maxLineBytes
  acts : ∀ act ∈ round.acts, act.Valid limit
  final : Encodable (finalOf round.code round.text)

/-- The result becomes this final response. -/
structure Finishes (result : Except HandlerError Unit) (code : Option UInt32) (text : Bytes) :
    Prop where
  fatal : Session.rejectFatal result = .ok ()
  line : Session.finalLine result = .ok (finalOf code text)

/-- The lines of `HELP`. -/
def helpNotes (entries : List (String × String)) : List Act :=
  (Link.commands ++ entries).flatMap fun e => (Link.entryTexts e.1 e.2).map .note

section Servers

variable {S : Type} {service : Service S}

/-- What is done for a command: nothing but its result, a callback, or `HELP`. -/
inductive Handles (service : Service S) (command : Command) (state : S) :
    List Act → Except HandlerError Unit → S → Prop where
  | settle {result : Except HandlerError Unit} :
      Session.dispatch service command = Session.settle result →
      Handles service command state [] result state
  | callback {body : CommandContext S → Program S .context} {acts : List Act} {stage : Stage}
      {result : Except HandlerError Unit} {state' : S} :
      Session.dispatch service command = Session.callback service.options.maxInquiryBytes body →
      Engages ⟨false, false⟩ (body ⟨state, true⟩) acts stage result state' →
      Handles service command state acts result state'
  | help : route service.registry command.name = .help →
      (∀ e ∈ service.listing state,
        isToken (asBytes e.1) = true ∧ isCleanLine (asBytes e.2) = true) →
      Handles service command state (helpNotes (service.listing state)) (.ok ()) state

/-- The rounds from one state of the application to another. `BYE` is the last. -/
inductive Converses (service : Service S) : S → List CommandRound → S → Prop where
  | nil (state : S) : Converses service state [] state
  | round {state state' state'' : S} {round : CommandRound} {rounds : List CommandRound}
      {result : Except HandlerError Unit} :
      Handles service round.command state round.acts result state' →
      Finishes result round.code round.text → (round.command.name = "BYE" → rounds = []) →
      Converses service state' rounds state'' → Converses service state (round :: rounds) state''

/-! ## §2  One command -/

variable {session : Session S} {stage stage' : Stage} {input rest : Bytes}
  {result : Except HandlerError Unit}

theorem Engages.greeting {program : Program S .context} {acts : List Act} {state : S}
    (h : Engages stage program acts stage' result state) : stage'.greeting = stage.greeting := by
  induction h with
  | done => rfl
  | data _ ih => exact ih
  | status _ ih => exact ih
  | ask _ _ ih => exact ih

/-- A greeting cannot be rejected and go on. -/
theorem Finishes.rejectGreeting {code : Option UInt32} {text : Bytes} {greeting : Bool}
    (h : Finishes result code text) (hgreeting : greeting = true → code = none) :
    Session.rejectGreeting greeting result = .ok () := by
  cases greeting with
  | false => cases result <;> rfl
  | true =>
      obtain rfl := hgreeting rfl
      have hline := h.line
      cases result with
      | ok u => rfl
      | error e =>
          cases e with
          | remote code message =>
              obtain ⟨_, -, hsame⟩ := Outcome.bind_eq_ok.mp hline
              exact absurd hsame (by simp [finalOf])
          | internal => exact absurd hline (by simp [Session.finalLine, finalOf])
          | _ => exact absurd hline (by simp [Session.finalLine])

/-- The final response of an operation, at any stage. -/
theorem Engaged.finalize {code : Option UInt32} {text : Bytes}
    (h : Engaged session.link stage input) (hfinishes : Finishes result code text)
    (hencodable : Encodable (finalOf code text)) (hgreeting : stage.greeting = true → code = none) :
    ∃ ch, Session.finalize result stage.greeting session = (.ok (), { session with
        link := ⟨ch, { session.link.machine with state := .ready }⟩ }) ∧ Ideal ch input ∧
      written ch.trace = written session.link.channel.trace ++
        (responseBody (finalOf code text) ++ [lf]) := by
  have hmay : Session.mayFinish session.link.machine = .ok () := by
    rw [Session.mayFinish, h.state]
    obtain ⟨greeting, cancelled⟩ := stage
    cases greeting <;> cases cancelled <;> rfl
  have hanswer : session.link.machine.sendResponse (finalOf code text).kind =
      (.ok (), { session.link.machine with state := .ready }) := by
    have hstate := h.state
    have horigin := h.origin
    obtain ⟨greeting, cancelled⟩ := stage
    cases code <;> cases greeting <;> cases cancelled <;>
      simp_all [ServerMachine.sendResponse, Stage.state, Stage.origin, finalOf, ServerLine.kind]
  have hsend : Link.sendResponse (finalOf code text).kind session.link =
      (.ok (), { session.link with machine := { session.link.machine with state := .ready } }) := by
    rw [Link.sendResponse, hanswer]
    rfl
  obtain ⟨ch, hwrite, hideal, htrace⟩ :=
    @link_writeLine { session.link with machine := { session.link.machine with state := .ready } }
      input _ h.ideal hencodable.wire
  refine ⟨ch, ?_, hideal, ?_⟩
  · rw [Session.finalize, hfinishes.fatal, Action.lift_ok_bind,
      Action.bind_ok (Action.get_apply session), hmay, Action.lift_ok_bind, hfinishes.line,
      Action.lift_ok_bind, hencodable.cases.1, Outcome.mapErr_ok, Action.lift_ok_bind,
      Action.bind_ok (session_onLink session hsend), Action.bind_ok (session_onLink _ hwrite),
      hfinishes.rejectGreeting hgreeting]
    rfl
  · rw [htrace, written_append, written_wrote]

/-- The lines of `HELP`, one entry after the other. -/
theorem Engaged.notes {link : Link} {texts : List String} (htexts : ∀ text ∈ texts, Listable text)
    (h : Engaged link stage input) :
    ∃ link', Action.forEach Link.comment (texts.map asBytes) link = (.ok (), link') ∧
      Engaged link' stage input ∧ written link'.channel.trace =
        written link.channel.trace ++ ((texts.map Act.note).flatMap Act.lines).flatten := by
  induction texts generalizing link with
  | nil => exact ⟨link, rfl, h, by simp⟩
  | cons text texts ih =>
      obtain ⟨link₁, hfirst, hengaged, hwritten⟩ := h.note (htexts text List.mem_cons_self)
      obtain ⟨link', hrest, hengaged', hwritten'⟩ :=
        ih (fun t ht => htexts t (List.mem_cons_of_mem _ ht)) hengaged
      refine ⟨link', ?_, hengaged', ?_⟩
      · rw [List.map_cons, Action.forEach, Action.bind_ok hfirst, hrest]
      · rw [hwritten', hwritten, List.map_cons, List.flatMap_cons, List.flatten_append,
          List.append_assoc]
        simp [Act.lines]

theorem Engaged.entries {link : Link} {entries : List (String × String)}
    (hentries : ∀ e ∈ entries, isToken (asBytes e.1) = true ∧ isCleanLine (asBytes e.2) = true)
    (h : Engaged link stage input) :
    ∃ link', Action.forEach (fun e : String × String => Link.entry e.1 e.2) entries link =
        (.ok (), link') ∧ Engaged link' stage input ∧
      written link'.channel.trace = written link.channel.trace ++ ((entries.flatMap
        fun e => (Link.entryTexts e.1 e.2).map Act.note).flatMap Act.lines).flatten := by
  induction entries generalizing link with
  | nil => exact ⟨link, rfl, h, by simp⟩
  | cons e entries ih =>
      obtain ⟨hname, hdescription⟩ := hentries e List.mem_cons_self
      obtain ⟨link₁, hfirst, hengaged, hwritten⟩ :=
        h.notes (entryTexts_listable hname hdescription)
      rw [← entry_comments hname hdescription] at hfirst
      obtain ⟨link', hrest, hengaged', hwritten'⟩ :=
        ih (fun e he => hentries e (List.mem_cons_of_mem _ he)) hengaged
      refine ⟨link', ?_, hengaged', ?_⟩
      · rw [Action.forEach, Action.bind_ok hfirst, hrest]
      · rw [hwritten', hwritten, List.flatMap_cons, List.flatMap_append, List.flatten_append,
          List.append_assoc]

theorem commands_listed : ∀ e ∈ Link.commands,
    isToken (asBytes e.1) = true ∧ isCleanLine (asBytes e.2) = true := by
  intro e he
  simp only [Link.commands, List.mem_cons, List.not_mem_nil, or_false] at he
  rcases he with rfl | rfl | rfl | rfl | rfl <;> exact ⟨by decide, by decide⟩

/-- Nothing is heard for `HELP`. -/
theorem helpNotes_replies (entries : List (String × String)) :
    (helpNotes entries).flatMap Act.replies = [] := by
  rw [List.flatMap_eq_nil_iff]
  intro act hact
  obtain ⟨e, -, hnote⟩ := List.mem_flatMap.mp hact
  obtain ⟨text, -, rfl⟩ := List.mem_map.mp hnote
  rfl

/-- A session between the result of a command and its final response. -/
structure Dispatched (session : Session S) (state : S) (lines : List Bytes) (rest : Bytes)
    (session' : Session S) : Prop where
  engaged : ∃ cancelled, Engaged session'.link ⟨false, cancelled⟩ rest
  state : session'.state = state
  authenticated : session'.authenticated = session.authenticated
  horizon : session'.horizon = session.horizon
  written : written session'.link.channel.trace =
    written session.link.channel.trace ++ lines.flatten

theorem Handles.dispatch {command : Command} {state state' : S} {acts : List Act}
    (h : Handles service command state acts result state')
    (hmax : service.options.maxInquiryBytes ≤ usizeMax)
    (hvalid : ∀ act ∈ acts, act.Valid service.options.maxInquiryBytes)
    (hstate : session.state = state) (hauthenticated : session.authenticated = true)
    (hengaged : Engaged session.link ⟨false, false⟩ ((acts.flatMap Act.replies).flatten ++ rest)) :
    ∃ session', Session.dispatch service command session = (.ok result, session') ∧
      Dispatched session state' (acts.flatMap Act.lines) rest session' := by
  cases h with
  | settle hdispatch =>
      rw [hdispatch]
      exact ⟨_, rfl, ⟨false, hengaged⟩, hstate, rfl, rfl, by simp⟩
  | @callback body _ stage _ _ hdispatch hengages =>
      obtain ⟨link', hrun, hengaged', hwritten⟩ := hengages.run hmax hvalid hengaged
      rw [← hstate, ← hauthenticated] at hrun
      obtain ⟨greeting, cancelled⟩ := stage
      obtain rfl : greeting = false := hengages.greeting
      rw [hdispatch]
      refine ⟨{ session with
        link := link', state := state', result := some result, faulty := false }, ?_,
        ⟨cancelled, hengaged'⟩, rfl, rfl, rfl, hwritten⟩
      simp only [Session.callback, hrun]
  | help hroute hentries =>
      rw [helpNotes_replies, List.flatten_nil, List.nil_append] at hengaged
      have hall : ∀ e ∈ Link.commands ++ service.listing state,
          isToken (asBytes e.1) = true ∧ isCleanLine (asBytes e.2) = true := by
        intro e he
        rcases List.mem_append.mp he with he | he
        · exact commands_listed e he
        · exact hentries e he
      obtain ⟨link', hrun, hengaged', hwritten⟩ := hengaged.entries hall
      have hhelp : Link.help (service.listing session.state) session.link = (.ok (), link') := by
        rw [hstate]
        exact hrun
      refine ⟨{ session with link := link', result := some (.ok ()) }, ?_, ⟨false, hengaged'⟩,
        hstate, rfl, rfl, hwritten⟩
      rw [Session.dispatch]
      simp only [hroute, Session.help, hhelp]

/-- A session between two commands. -/
structure Session.Waiting (session : Session S) (state : S) (input : Bytes) : Prop where
  ideal : Ideal session.link.channel input
  ready : session.link.machine.state = .ready
  state : session.state = state
  authenticated : session.authenticated = true
  horizon : session.horizon = []

namespace Session

theorem deadline_ok {duration : ℕ} (hhorizon : session.horizon = []) (hduration : duration ≠ 0) :
    deadline duration session = (.ok (), session) := by
  obtain ⟨link, state, authenticated, horizon, past, opener, mark, result, faulty⟩ := session
  obtain rfl : horizon = [] := hhorizon
  exact if_neg hduration

theorem onLink_readLineOrEof {found : Option Bytes} {ch : Channel}
    (h : Channel.readLineOrEof session.link.channel = (.ok found, ch)) :
    onLink (Link.onChannel Channel.readLineOrEof) session =
      (.ok found, { session with link := { session.link with channel := ch } }) :=
  session_onLink session (Action.mapErr_apply (Action.zoom_apply h))

variable {state : S}

/-- The command line is read. -/
theorem Waiting.nextCommand {command : Command}
    (h : session.Waiting state (commandBody command ++ [lf] ++ rest))
    (hname : command.name ∉ protocolNames)
    (hlen : (commandBody command).length + 1 ≤ maxLineBytes) (fuel : ℕ) :
    ∃ ch, Session.nextCommand (fuel + 1) session = (.ok (some (commandBody command)), { session with
        link := ⟨ch, { session.link.machine with state := .handler }⟩ }) ∧ Ideal ch rest ∧
      written ch.trace = written session.link.channel.trace := by
  obtain ⟨ch, hread, hideal, -, hadvances⟩ := h.ideal.readLine (commandBody_clean command) hlen
  obtain ⟨found, ch', hread', hfound⟩ := Action.bind_eq_ok.mp hread
  obtain ⟨hsome, rfl⟩ := Prod.mk.inj hfound
  obtain rfl : found = some (commandBody command) := Outcome.okOr_eq_ok.mp hsome
  have hreceive : Link.receiveRequest .command { session.link with channel := ch' } =
      (.ok (), ⟨ch', { session.link.machine with state := .handler }⟩) := by
    simp [Link.receiveRequest, ServerMachine.receiveRequest, h.ready, ofState]
  refine ⟨ch', ?_, hideal, hadvances.written⟩
  rw [Session.nextCommand, Action.bind_ok (onLink_readLineOrEof hread')]
  show (Action.lift ((requestKind (commandBody command)).mapErr ServerError.protocol) >>= _) _ = _
  rw [(requestKind_commandBody command).mpr hname, Outcome.mapErr_ok, Action.lift_ok_bind,
    Action.bind_ok (session_onLink { session with link := { session.link with channel := ch' } }
      hreceive), if_neg (by simp)]
  rfl

/-- At the end of the stream there is no command. -/
theorem Waiting.nextCommand_eof (h : session.Waiting state []) (fuel : ℕ) :
    ∃ ch, Session.nextCommand (fuel + 1) session = (.ok none, { session with
        link := { session.link with channel := ch } }) ∧
      written ch.trace = written session.link.channel.trace := by
  obtain ⟨reads, line, unread, trace, hchannel, hreads, hunread, hinput⟩ := h.ideal
  have hread := @Channel.readLineOrEof_eof line unread trace [] reads hreads hinput
  rw [← hchannel] at hread
  refine ⟨standing (some ⟨[], []⟩) .new [] [] (trace ++ [.read []]), ?_, ?_⟩
  · rw [Session.nextCommand, Action.bind_ok (onLink_readLineOrEof hread)]
    rfl
  · rw [hchannel]
    show written (trace ++ [.read []]) = written trace
    exact (written_append trace [.read []]).trans (List.append_nil _)

/-- A round: the command line and the answers are taken, the response is written, and
the session waits again. -/
theorem Waiting.answer {round : CommandRound} {state' : S}
    (hideal : Ideal session.link.channel ((round.acts.flatMap Act.replies).flatten ++ rest))
    (hhandler : session.link.machine.state = .handler) (hstate : session.state = state)
    (hauthenticated : session.authenticated = true) (hhorizon : session.horizon = [])
    (hmax : service.options.maxInquiryBytes ≤ usizeMax)
    (htimeout : service.options.commandTimeout ≠ 0)
    (hvalid : round.Valid service.options.maxInquiryBytes)
    (hhandles : Handles service round.command state round.acts result state')
    (hfinishes : Finishes result round.code round.text) :
    ∃ session', Session.answer service (commandBody round.command) session =
        (.ok (round.command.name = "BYE"), session') ∧ session'.Waiting state' rest ∧
      written session'.link.channel.trace =
        written session.link.channel.trace ++ round.response.flatten := by
  obtain ⟨session₁, hdispatch, hdispatched⟩ := @Handles.dispatch S service
    (session.openBlock (commandBody round.command)) rest result _ _ _ _ hhandles hmax hvalid.acts
    hstate hauthenticated ⟨hideal, hhandler, by simp⟩
  obtain ⟨cancelled, hengaged⟩ := hdispatched.engaged
  obtain ⟨ch, hfinalize, hideal', hwritten⟩ :=
    hengaged.finalize hfinishes hvalid.final (fun h => absurd h (by simp))
  have hparse : Command.parse (commandBody round.command) = .ok round.command :=
    parse_commandBody round.command
  have hdeadline : deadline service.options.commandTimeout
      (session.openBlock (commandBody round.command)) =
        (.ok (), session.openBlock (commandBody round.command)) := deadline_ok hhorizon htimeout
  refine ⟨{ session₁ with link := ⟨ch, { session₁.link.machine with state := .ready }⟩ }, ?_,
    ⟨hideal', rfl, hdispatched.state, ?_, ?_⟩, ?_⟩
  · rw [Session.answer, Action.bind_ok (Action.modify_apply _ _), hparse, Outcome.mapErr_ok,
      Action.lift_ok_bind, Action.bind_ok hdeadline, Action.bind_ok hdispatch,
      Action.bind_ok hfinalize]
    rfl
  · exact hdispatched.authenticated.trans hauthenticated
  · exact hdispatched.horizon.trans hhorizon
  · show written ch.trace = _
    rw [hwritten, hdispatched.written, CommandRound.response, List.flatten_append,
      List.append_assoc]
    simp [openBlock]

/-! ## §3  The whole session -/

/-- What the rounds leave behind. -/
structure Conversed (session : Session S) (state : S) (lines : List Bytes) (session' : Session S) :
    Prop where
  state : session'.state = state
  horizon : session'.horizon = []
  written : written session'.link.channel.trace =
    written session.link.channel.trace ++ lines.flatten

/-- The loop, by induction on the rounds: it ends after `BYE` or at the end of the
stream. -/
theorem Waiting.serve {rounds : List CommandRound} {state' : S}
    (hconverses : Converses service state rounds state')
    (hvalid : ∀ round ∈ rounds, round.Valid service.options.maxInquiryBytes)
    (hmax : service.options.maxInquiryBytes ≤ usizeMax)
    (htimeout : service.options.commandTimeout ≠ 0) (hidle : service.options.idleTimeout ≠ 0)
    {fuel : ℕ} (hfuel : rounds.length < fuel)
    (h : session.Waiting state (rounds.flatMap CommandRound.request).flatten) :
    ∃ session', Session.serve service fuel session = (.ok (), session') ∧
      Conversed session state' (rounds.flatMap CommandRound.response) session' := by
  induction hconverses generalizing session fuel with
  | nil state =>
      obtain ⟨fuel, rfl⟩ : ∃ n, fuel = n + 1 := ⟨fuel - 1, by omega⟩
      obtain ⟨ch, hnext, hwritten⟩ := h.nextCommand_eof session.link.channel.supply
      refine ⟨{ session with link := { session.link with channel := ch } }, ?_, h.state, h.horizon,
        ?_⟩
      · rw [Session.serve, Action.bind_ok (deadline_ok h.horizon hidle),
          Action.bind_ok (Action.get_apply session), Action.bind_ok hnext]
        rfl
      · rw [List.flatMap_nil, List.flatten_nil, List.append_nil]
        exact hwritten
  | @round state state₁ state₂ round rounds result hhandles hfinishes hbye hlater ih =>
      obtain ⟨fuel, rfl⟩ : ∃ n, fuel = n + 1 :=
        ⟨fuel - 1, by rw [List.length_cons] at hfuel; omega⟩
      have hround := hvalid round List.mem_cons_self
      have hinput : ((round :: rounds).flatMap CommandRound.request).flatten =
          commandBody round.command ++ [lf] ++ ((round.acts.flatMap Act.replies).flatten ++
            (rounds.flatMap CommandRound.request).flatten) := by
        simp only [List.flatMap_cons, CommandRound.request, List.cons_append, List.flatten_cons,
          List.flatten_append, List.append_assoc]
      rw [hinput] at h
      obtain ⟨ch, hnext, hideal, hwritten⟩ :=
        h.nextCommand hround.name hround.fits session.link.channel.supply
      obtain ⟨session₁, hanswer, hwaiting, hwritten₁⟩ := @Waiting.answer S service
        { session with link := ⟨ch, { session.link.machine with state := .handler }⟩ }
        (rounds.flatMap CommandRound.request).flatten result state round state₁ hideal rfl h.state
        h.authenticated h.horizon hmax htimeout hround hhandles hfinishes
      have hbegin : Session.serve service (fuel + 1) session =
          (if decide (round.command.name = "BYE") then pure () else Session.serve service fuel)
            session₁ := by
        rw [Session.serve, Action.bind_ok (deadline_ok h.horizon hidle),
          Action.bind_ok (Action.get_apply session), Action.bind_ok hnext]
        show (Session.answer service (commandBody round.command) >>= _) _ = _
        rw [Action.bind_ok hanswer]
      have hsofar : written session₁.link.channel.trace =
          written session.link.channel.trace ++ round.response.flatten := by
        rw [hwritten₁, ← hwritten]
      by_cases hname : round.command.name = "BYE"
      · obtain rfl := hbye hname
        cases hlater
        refine ⟨session₁, ?_, hwaiting.state, hwaiting.horizon, ?_⟩
        · rw [hbegin, if_pos (decide_eq_true hname)]
          rfl
        · rw [hsofar]
          simp
      · obtain ⟨session', hserve, hserved⟩ :=
          ih (fun r hr => hvalid r (List.mem_cons_of_mem _ hr))
            (by rw [List.length_cons] at hfuel; omega : rounds.length < fuel) hwaiting
        refine ⟨session', ?_, hserved.state, hserved.horizon, ?_⟩
        · rw [hbegin, if_neg (by simpa using hname)]
          exact hserve
        · rw [hserved.written, hsofar, List.flatMap_cons, List.flatten_append, List.append_assoc]

end Session

/-- The options are accepted. -/
structure ServerOptions.Valid (options : ServerOptions) : Prop where
  sessions : options.maxSessions ≠ 0 ∧ options.maxSessions ≤ maxPermits
  budget : options.maxInquiryBytes ≠ 0 ∧ options.maxInquiryBytes ≤ usizeMax
  greeting : options.greetingTimeout ≠ 0
  command : options.commandTimeout ≠ 0
  inquiry : options.inquiryTimeout ≠ 0
  idle : options.idleTimeout ≠ 0
  shutdown : options.shutdownTimeout ≠ 0

/-- A whole session: the greeting is sent and accepted, the rounds follow, and the
close hook succeeds. -/
inductive Hosts (service : Service S) (state : S) (hello : List Act) (text : Bytes)
    (rounds : List CommandRound) : S → Prop where
  | hosts {stage : Stage} {result : Except HandlerError Unit} {state₁ state₂ state₃ : S} :
      Engages ⟨true, false⟩ (service.hooks.authenticate ⟨state, false⟩) hello stage result state₁ →
      Finishes result none text → Converses service state₁ rounds state₂ →
      service.hooks.closed state₂ .clean = (.ok (), state₃) →
      Hosts service state hello text rounds state₃

/-- What the server is sent. -/
def requestsOf (hello : List Act) (rounds : List CommandRound) : Bytes :=
  (hello.flatMap Act.replies).flatten ++ (rounds.flatMap CommandRound.request).flatten

/-- The greeting. -/
def greetingOf (hello : List Act) (text : Bytes) : Bytes :=
  (hello.flatMap Act.lines).flatten ++ (responseBody (.ok text) ++ [lf])

section Whole

variable {hello : List Act} {text : Bytes} {rounds : List CommandRound} {state state' : S}

theorem validate_ok {options : ServerOptions} (hvalid : options.Valid)
    (hhorizon : session.horizon = []) :
    Session.validate options session = (.ok (), session) := by
  have hbad : ¬ (options.maxInquiryBytes = 0 ∨ options.maxSessions = 0 ∨
      options.maxSessions > maxPermits) := by
    rintro (hzero | hzero | hmany)
    · exact hvalid.budget.1 hzero
    · exact hvalid.sessions.1 hzero
    · exact absurd hvalid.sessions.2 (Nat.not_le.mpr hmany)
  rw [Session.validate, if_neg hbad]
  simp only [Action.forEach]
  rw [Action.bind_ok (Session.deadline_ok hhorizon hvalid.greeting),
    Action.bind_ok (Session.deadline_ok hhorizon hvalid.command),
    Action.bind_ok (Session.deadline_ok hhorizon hvalid.inquiry),
    Action.bind_ok (Session.deadline_ok hhorizon hvalid.idle),
    Action.bind_ok (Session.deadline_ok hhorizon hvalid.shutdown)]
  rfl

/-- The greeting, and then the rounds. -/
theorem drive_rounds {stage : Stage} {state₁ : S} {chunks : List Chunk}
    (hoptions : service.options.Valid)
    (hgreets : Engages ⟨true, false⟩ (service.hooks.authenticate ⟨state, false⟩) hello stage result
      state₁)
    (hfinishes : Finishes result none text) (hconverses : Converses service state₁ rounds state')
    (hhello : ∀ act ∈ hello, act.Valid service.options.maxInquiryBytes)
    (htext : Encodable (.ok text))
    (hvalid : ∀ round ∈ rounds, round.Valid service.options.maxInquiryBytes)
    (hinput : (chunks.map Chunk.bytes).flatten = requestsOf hello rounds) {fuel : ℕ}
    (hfuel : rounds.length < fuel) :
    ∃ session, Session.drive service fuel (Session.new ⟨chunks.map .data, []⟩ [] [] state) =
        (.ok (), session) ∧ session.state = state' ∧ session.horizon = [] ∧
      written session.link.channel.trace =
        greetingOf hello text ++ (rounds.flatMap CommandRound.response).flatten := by
  have hideal := ideal_new chunks
  rw [hinput, requestsOf] at hideal
  obtain ⟨link₁, hrun, hengaged, hwritten⟩ := @Engages.run S service.options.maxInquiryBytes
    _ _ _ _ _ _ _ hgreets hoptions.budget.2 ⟨Channel.new ⟨chunks.map .data, []⟩ [], .new⟩ hhello
    ⟨hideal, rfl, by simp⟩
  obtain ⟨started, hstarted⟩ : ∃ s : Session S, s = { Session.new ⟨chunks.map .data, []⟩ [] [] state
      with link := link₁, state := state₁, result := some result, faulty := false } := ⟨_, rfl⟩
  have hcallback : Session.callback service.options.maxInquiryBytes service.hooks.authenticate
      (Session.new ⟨chunks.map .data, []⟩ [] [] state) = (.ok result, started) := by
    have hrun' : Program.run service.options.maxInquiryBytes
        (service.hooks.authenticate ⟨(Session.new ⟨chunks.map .data, []⟩ [] [] state).state,
          (Session.new ⟨chunks.map .data, []⟩ [] [] state).authenticated⟩)
        (Session.new ⟨chunks.map .data, []⟩ [] [] state).link false =
          ⟨some result, state₁, false, link₁⟩ := hrun
    rw [hstarted]
    simp only [Session.callback, hrun']
  have hlink : started.link = link₁ := by rw [hstarted]
  rw [← hlink] at hengaged hwritten
  obtain ⟨ch, hfinalize, hideal', hwritten'⟩ := hengaged.finalize hfinishes htext fun _ => rfl
  rw [hgreets.greeting] at hfinalize
  have hwaiting : Session.Waiting { started with
      link := ⟨ch, { started.link.machine with state := .ready }⟩, authenticated := true } state₁
        (rounds.flatMap CommandRound.request).flatten := by
    subst hstarted
    exact ⟨hideal', rfl, rfl, rfl, rfl⟩
  obtain ⟨session, hserve, hserved⟩ := hwaiting.serve hconverses hvalid hoptions.budget.2
    hoptions.command hoptions.idle hfuel
  refine ⟨session, ?_, hserved.state, hserved.horizon, ?_⟩
  · rw [Session.drive, Action.bind_ok (Session.deadline_ok rfl hoptions.greeting),
      Action.bind_ok hcallback, Action.bind_ok hfinalize, Action.bind_ok (Action.modify_apply _ _)]
    exact hserve
  · rw [hserved.written]
    show written ch.trace ++ _ = _
    rw [hwritten', hwritten, greetingOf]
    rfl

/-- **A server through its rounds.** However its input is cut into reads, the session
succeeds, it has written the greeting and the responses of its rounds and nothing
else, and it leaves the state that the callbacks leave. -/
theorem run_rounds {chunks : List Chunk} (hoptions : service.options.Valid)
    (hhosts : Hosts service state hello text rounds state')
    (hhello : ∀ act ∈ hello, act.Valid service.options.maxInquiryBytes)
    (htext : Encodable (.ok text))
    (hvalid : ∀ round ∈ rounds, round.Valid service.options.maxInquiryBytes)
    (hinput : (chunks.map Chunk.bytes).flatten = requestsOf hello rounds) :
    ∃ session, Session.run service (rounds.length + 1)
        (Session.new ⟨chunks.map .data, []⟩ [] [] state) = (.ok (), session) ∧
      session.state = state' ∧ written session.link.channel.trace =
        greetingOf hello text ++ (rounds.flatMap CommandRound.response).flatten := by
  obtain ⟨hgreets, hfinishes, hconverses, hclosed⟩ := hhosts
  obtain ⟨session, hdrive, hstate, hhorizon, hwritten⟩ := drive_rounds hoptions hgreets hfinishes
    hconverses hhello htext hvalid hinput (Nat.lt_succ_self _)
  obtain ⟨ended, hended⟩ : ∃ s : Session S, s = { session with
      link := ⟨session.link.channel.close, session.link.machine.close⟩ } := ⟨_, rfl⟩
  have hclosing : Session.closing service (.ok ()) ended =
      (.ok (), { ended with state := state' }) := by
    have hdeadline : Session.deadline service.options.shutdownTimeout ended = (.ok (), ended) :=
      Session.deadline_ok (by rw [hended]; exact hhorizon) hoptions.shutdown
    have hclosed' : service.hooks.closed ended.state .clean = (.ok (), state') := by
      rw [hended, ← hclosed, ← hstate]
    unfold Session.closing
    rw [Action.bind_ok hdeadline, Action.bind_ok (Action.get_apply ended)]
    simp only [hclosed']
    rfl
  have hvalidate : Session.validate service.options
      (Session.new ⟨chunks.map .data, []⟩ [] [] state) =
        (.ok (), Session.new ⟨chunks.map .data, []⟩ [] [] state) := validate_ok hoptions rfl
  refine ⟨{ ended with state := state' }, ?_, rfl, ?_⟩
  · refine (Action.bind_ok hvalidate).trans ?_
    simp only [hdrive]
    rw [← hended]
    exact hclosing
  · rw [hended]
    exact hwritten

end Whole

end Servers

end Assuan
