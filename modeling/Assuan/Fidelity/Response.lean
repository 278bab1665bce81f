import Assuan.Fidelity.Events
import Assuan.Server.Session

/-!
# What a callback sends, the client receives

A callback sends data and status lines and returns a result; `answer` turns it
into lines on the stream, and the transaction of the client turns the lines into
events. The two halves meet at the wire: the first says which lines are written,
the second what `next` makes of them.
-/

namespace Assuan

open Channel LineBuffer SessionCore

/-! ## §1  Sends -/

inductive Sending : Type where
  | data (bytes : Bytes)
  | status (keyword : String) (args : Bytes)

/-- Data can always be sent, a status when it can be encoded. -/
def Sending.Valid : Sending → Prop
  | .data _ => True
  | .status keyword args => Encodable (.status keyword args)

/-- The lines of one send. -/
def Sending.lines : Sending → List Bytes
  | .data bytes => (pieces bytes).map dataLine
  | .status keyword args => [responseBody (.status keyword args) ++ [lf]]

/-- A callback whose operations succeed performs these sends, and returns. It may
choose each of them by what came before. -/
inductive Performs {S : Type} : Program S .context → List Sending → Except HandlerError Unit → S →
    Prop where
  | done (result : Except HandlerError Unit) (state : S) :
      Performs (.done result state) [] result state
  | data {bytes : Bytes} {k : Outcome HandlerError Unit → Program S .context}
      {sends : List Sending} {result : Except HandlerError Unit} {state : S} :
      Performs (k (.ok ())) sends result state →
        Performs (.sendData bytes k) (.data bytes :: sends) result state
  | status {keyword : String} {args : Bytes} {k : Outcome HandlerError Unit → Program S .context}
      {sends : List Sending} {result : Except HandlerError Unit} {state : S} :
      Performs (k (.ok ())) sends result state →
        Performs (.sendStatus keyword args k) (.status keyword args :: sends) result state

/-- `Ok`, or a remote error that can be encoded. -/
def ValidResult (result : Except HandlerError Unit) : Prop :=
  result = .ok () ∨ ∃ code message, result = .error (.remote code message) ∧
    HandlerError.validateRemote (.remote code message) = .ok ()

def finalCode : Except HandlerError Unit → Option UInt32
  | .error (.remote code _) => some code
  | _ => none

def finalText : Except HandlerError Unit → Bytes
  | .error (.remote _ message) => asBytes message
  | _ => []

/-! ## §2  The server writes -/

/-- A server in the middle of a command. -/
structure Handling (link : Link) (input : Bytes) : Prop where
  ideal : Ideal link.channel input
  state : link.machine.state = .handler

section Server

variable {link : Link} {input : Bytes}

theorem encodable_iff {line : ServerLine} : Encodable line ↔ FieldsValid line ∧
    isCleanLine (responseBody line) = true ∧ (responseBody line).length + 1 ≤ maxLineBytes := by
  constructor
  · intro h
    exact h.cases.2
  · intro h
    rcases encoded_cases (encodeResponse_writesLine line (Buffer.zero _)) with hok | ⟨-, hnot⟩
    · exact ⟨_, hok.1⟩
    · exact absurd h hnot

theorem Encodable.wire {line : ServerLine} (h : Encodable line) :
    validateWireLine (responseBody line ++ [lf]) = .ok () :=
  validateWireLine_clean h.cases.2.2.1 h.cases.2.2.2

theorem link_writeLine {bytes : Bytes} (h : Ideal link.channel input)
    (hvalid : validateWireLine bytes = .ok ()) :
    ∃ ch, Link.writeLine bytes link = (.ok (), { link with channel := ch }) ∧ Ideal ch input ∧
      ch.trace = link.channel.trace ++ [.wrote bytes] := by
  obtain ⟨ch, hwrite, hideal, htrace, -⟩ := h.writeLine hvalid
  exact ⟨ch, Action.mapErr_apply (Action.zoom_apply hwrite), hideal, htrace⟩

theorem link_writeLines {lines : List Bytes} (h : Ideal link.channel input)
    (hvalid : ∀ line ∈ lines, validateWireLine line = .ok ()) :
    ∃ ch, Action.forEach Link.writeLine lines link = (.ok (), { link with channel := ch }) ∧
      Ideal ch input ∧ ch.trace = link.channel.trace ++ lines.map .wrote := by
  induction lines generalizing link with
  | nil => exact ⟨link.channel, rfl, h, by simp⟩
  | cons line lines ih =>
      obtain ⟨ch, hwrite, hideal, htrace⟩ := link_writeLine h (hvalid line List.mem_cons_self)
      obtain ⟨ch', hrest, hideal', htrace'⟩ :=
        @ih { link with channel := ch } hideal fun l hl => hvalid l (List.mem_cons_of_mem _ hl)
      refine ⟨ch', ?_, hideal', ?_⟩
      · rw [Action.forEach, Action.bind_ok hwrite, hrest]
      · rw [htrace', htrace]
        simp

theorem sendResponse_same {kind : LineKind}
    (h : link.machine.sendResponse kind = (.ok (), link.machine)) :
    Link.sendResponse kind link = (.ok (), link) := by
  rw [Link.sendResponse, h]
  rfl

theorem Handling.sendData (h : Handling link input) (data : Bytes) :
    ∃ link', Link.sendData data link = (.ok (), link') ∧ Handling link' input ∧
      link'.channel.trace = link.channel.trace ++ (Sending.data data).lines.map .wrote := by
  have hanswer : link.machine.sendResponse .data = (.ok (), link.machine) := by
    simp [ServerMachine.sendResponse, h.state]
  have hvalid : ∀ line ∈ (pieces data).map dataLine, validateWireLine line = .ok () := by
    intro line hline
    obtain ⟨piece, hpiece, rfl⟩ := List.mem_map.mp hline
    exact validateWireLine_dataLine hpiece
  obtain ⟨ch, hwrite, hideal, htrace⟩ := link_writeLines h.ideal hvalid
  refine ⟨{ link with channel := ch }, Action.onFailure_ok ?_, ⟨hideal, h.state⟩, htrace⟩
  rw [Action.bind_ok (sendResponse_same hanswer), streamData_eq, hwrite]

theorem Handling.sendStatus (h : Handling link input) {keyword : String} {args : Bytes}
    (hencodable : Encodable (.status keyword args)) :
    ∃ link', Link.sendStatus keyword args link = (.ok (), link') ∧ Handling link' input ∧
      link'.channel.trace = link.channel.trace ++ (Sending.status keyword args).lines.map .wrote := by
  have hanswer : link.machine.sendResponse .status = (.ok (), link.machine) := by
    simp [ServerMachine.sendResponse, h.state]
  obtain ⟨ch, hwrite, hideal, htrace⟩ := link_writeLine h.ideal hencodable.wire
  refine ⟨{ link with channel := ch }, Action.onFailure_ok ?_, ⟨hideal, h.state⟩, htrace⟩
  rw [Link.sendLine, hencodable.cases.1, Outcome.mapErr_ok, Action.lift_ok_bind]
  show (Link.sendResponse .status >>= _) link = _
  rw [Action.bind_ok (sendResponse_same hanswer), hwrite]

/-- Running the callback writes the lines of its sends, in their order. -/
theorem Performs.run {S : Type} {program : Program S .context} {sends : List Sending}
    {result : Except HandlerError Unit} {state : S} (hperforms : Performs program sends result state)
    (hvalid : ∀ send ∈ sends, send.Valid) (limit : ℕ) (h : Handling link input) :
    ∃ link', program.run limit link false = ⟨some result, state, false, link'⟩ ∧
      Handling link' input ∧
      link'.channel.trace = link.channel.trace ++ (sends.flatMap Sending.lines).map .wrote := by
  induction hperforms generalizing link with
  | done result state => exact ⟨link, rfl, h, by simp⟩
  | @data bytes k sends result state _ ih =>
      obtain ⟨link₁, hsend, hhandling, htrace⟩ := h.sendData bytes
      obtain ⟨link', hrun, hhandling', htrace'⟩ :=
        ih (fun send hsend => hvalid send (List.mem_cons_of_mem _ hsend)) hhandling
      refine ⟨link', ?_, hhandling', ?_⟩
      · rw [Program.run]
        simp only [hsend, Outcome.isOk, Bool.not_true, Bool.or_self]
        exact hrun
      · rw [htrace', htrace]
        simp
  | @status keyword args k sends result state _ ih =>
      obtain ⟨link₁, hsend, hhandling, htrace⟩ :=
        h.sendStatus (hvalid (.status keyword args) List.mem_cons_self)
      obtain ⟨link', hrun, hhandling', htrace'⟩ :=
        ih (fun send hsend => hvalid send (List.mem_cons_of_mem _ hsend)) hhandling
      refine ⟨link', ?_, hhandling', ?_⟩
      · rw [Program.run]
        simp only [hsend, Outcome.isOk, Bool.not_true, Bool.or_self]
        exact hrun
      · rw [htrace', htrace]
        simp

/-! ### The final response -/

theorem ValidResult.encodable {result : Except HandlerError Unit} (h : ValidResult result) :
    Encodable (finalOf (finalCode result) (finalText result)) := by
  rcases h with rfl | ⟨code, message, rfl, hvalid⟩
  · rw [encodable_iff]
    exact ⟨trivial, by decide, by decide⟩
  · obtain ⟨bytes, hbytes, -⟩ := Outcome.bind_eq_ok.mp hvalid
    exact ⟨bytes, hbytes⟩

theorem ValidResult.finalLine {result : Except HandlerError Unit} (h : ValidResult result) :
    Session.rejectFatal result = .ok () ∧
      Session.finalLine result = .ok (finalOf (finalCode result) (finalText result)) ∧
      Session.rejectGreeting false result = .ok () := by
  rcases h with rfl | ⟨code, message, rfl, hvalid⟩
  · exact ⟨rfl, rfl, rfl⟩
  · refine ⟨rfl, ?_, rfl⟩
    rw [Session.finalLine, hvalid]
    rfl

section Sessions

variable {S : Type} {session : Session S}

theorem session_onLink {α : Type} {x : Action Link HandlerError α} {a : α} {link' : Link}
    (session : Session S) (h : x session.link = (.ok a, link')) :
    Session.onLink x session = (.ok a, { session with link := link' }) :=
  Action.mapErr_apply (Action.zoom_apply h)

theorem sendResponse_final {code : Option UInt32} {text : Bytes} (h : link.machine.state = .handler) :
    Link.sendResponse (finalOf code text).kind link =
      (.ok (), { link with machine := { link.machine with state := .ready } }) := by
  have hanswer : link.machine.sendResponse (finalOf code text).kind =
      (.ok (), { link.machine with state := .ready }) := by
    cases code <;> simp [ServerMachine.sendResponse, h, finalOf, ServerLine.kind]
  rw [Link.sendResponse, hanswer]
  rfl

/-- The result of a callback becomes one final line, and the machine is ready. -/
theorem finalize_ok {result : Except HandlerError Unit} (h : Handling session.link input)
    (hvalid : ValidResult result) :
    ∃ link', Session.finalize result false session = (.ok (), { session with link := link' }) ∧
      link'.machine.state = .ready ∧ Ideal link'.channel input ∧
      link'.channel.trace = session.link.channel.trace ++
        [.wrote (responseBody (finalOf (finalCode result) (finalText result)) ++ [lf])] := by
  obtain ⟨hfatal, hline, hgreeting⟩ := hvalid.finalLine
  have hencodable := hvalid.encodable
  obtain ⟨ch, hwrite, hideal, htrace⟩ :=
    @link_writeLine { session.link with machine := { session.link.machine with state := .ready } }
      input _ h.ideal hencodable.wire
  refine ⟨{ channel := ch, machine := { session.link.machine with state := .ready } }, ?_, rfl,
    hideal, htrace⟩
  have hmay : Session.mayFinish session.link.machine = .ok () := by
    rw [Session.mayFinish, h.state]
  rw [Session.finalize, hfatal, Action.lift_ok_bind, Action.bind_ok (Action.get_apply session),
    hmay, Action.lift_ok_bind, hline, Action.lift_ok_bind, hencodable.cases.1, Outcome.mapErr_ok,
    Action.lift_ok_bind, Action.bind_ok (session_onLink session (sendResponse_final h.state)),
    Action.bind_ok (session_onLink _ hwrite), hgreeting]
  rfl

/-- What a command puts on the wire. -/
def wire (sends : List Sending) (result : Except HandlerError Unit) : List Bytes :=
  sends.flatMap Sending.lines ++
    [responseBody (finalOf (finalCode result) (finalText result)) ++ [lf]]

/-- `answer`, for a command that is given to a callback. -/
theorem answer_ok {service : Service S} {line : Bytes} {command : Command}
    {body : CommandContext S → Program S .context} {sends : List Sending}
    {result : Except HandlerError Unit} {state : S} (h : Handling session.link input)
    (hparse : Command.parse line = .ok command) (hhorizon : session.horizon = [])
    (htimeout : service.options.commandTimeout ≠ 0)
    (hdispatch : Session.dispatch service command =
      Session.callback service.options.maxInquiryBytes body)
    (hperforms : Performs (body ⟨session.state, session.authenticated⟩) sends result state)
    (hvalid : ∀ send ∈ sends, send.Valid) (hresult : ValidResult result) :
    ∃ session', Session.answer service line session = (.ok (command.name = "BYE"), session') ∧
      session'.link.machine.state = .ready ∧ Ideal session'.link.channel input ∧
      session'.link.channel.trace = session.link.channel.trace ++ (wire sends result).map .wrote := by
  obtain ⟨link₁, hrun, hhandling, htrace⟩ :=
    hperforms.run hvalid service.options.maxInquiryBytes h
  have hdeadline : Session.deadline service.options.commandTimeout (session.openBlock line) =
      (.ok (), { session.openBlock line with horizon := [] }) := by
    have hopen : (session.openBlock line).horizon = [] := hhorizon
    rw [Session.deadline, if_neg htimeout, hopen]
    rfl
  have hcallback : Session.callback service.options.maxInquiryBytes body
      { session.openBlock line with horizon := [] } =
        (.ok result, { session.openBlock line with
          horizon := [], link := link₁, state := state, result := some result, faulty := false }) := by
    have hrun' : Program.run service.options.maxInquiryBytes
        (body ⟨(session.openBlock line).state, (session.openBlock line).authenticated⟩)
        (session.openBlock line).link false = ⟨some result, state, false, link₁⟩ := hrun
    simp only [Session.callback, hrun']
  obtain ⟨link₂, hfinal, hready, hideal, htrace'⟩ := @finalize_ok input S
    { session.openBlock line with
      horizon := [], link := link₁, state := state, result := some result, faulty := false }
    result hhandling hresult
  refine ⟨{ session.openBlock line with
    horizon := [], link := link₂, state := state, result := some result, faulty := false },
    ?_, hready, hideal, ?_⟩
  · rw [Session.answer, Action.bind_ok (Action.modify_apply _ _), hparse, Outcome.mapErr_ok,
      Action.lift_ok_bind, Action.bind_ok hdeadline, hdispatch, Action.bind_ok hcallback,
      Action.bind_ok hfinal]
    rfl
  · rw [htrace']
    show link₁.channel.trace ++ _ = _
    rw [htrace, wire]
    simp

end Sessions

end Server

/-! ## §3  The client reads -/

/-- The results of `n` calls of `next`. -/
def Transaction.collect : ℕ → Action (SessionCore × Completion) ClientError (List (Option Event))
  | 0 => pure []
  | n + 1 => do
      let event ← Transaction.next
      let rest ← collect n
      pure (event :: rest)

/-- The events of the sends: a status is one event, and data is one or more whose
payloads add up to it, with a single empty one for no data. -/
inductive Carries (sensitivity : Sensitivity) : List Sending → List Event → Prop where
  | nil : Carries sensitivity [] []
  | data {bytes : Bytes} {payloads : List Bytes} {sends : List Sending} {events : List Event} :
      payloads ≠ [] → payloads.flatten = bytes → (bytes = [] → payloads = [[]]) →
      Carries sensitivity sends events →
        Carries sensitivity (.data bytes :: sends)
          (payloads.map (fun payload => .data (PayloadRef.new payload sensitivity)) ++ events)
  | status {keyword : String} {args : Bytes} {sends : List Sending} {events : List Event} :
      Carries sensitivity sends events →
        Carries sensitivity (.status keyword args :: sends)
          (.status keyword (PayloadRef.new args sensitivity) :: events)

/-- The bytes of the data events. -/
def dataOf (events : List Event) : Bytes :=
  events.flatMap fun
    | .data payload => payload.bytes
    | _ => []

/-- The status events with their arguments. -/
def statusesOf (events : List Event) : List (String × Bytes) :=
  events.filterMap fun
    | .status keyword args => some (keyword, args.bytes)
    | _ => none

def Sending.bytes : Sending → Bytes
  | .data bytes => bytes
  | .status _ _ => []

def Sending.status? : Sending → Option (String × Bytes)
  | .data _ => none
  | .status keyword args => some (keyword, args)

section Client

variable {core : SessionCore} {rest : Bytes} {sends : List Sending}

theorem payloadRef_bytes (bytes : Bytes) (sensitivity : Sensitivity) :
    (PayloadRef.new bytes sensitivity).bytes = bytes := by
  cases sensitivity <;> rfl

theorem Carries.dataOf {sensitivity : Sensitivity} {events : List Event}
    (h : Carries sensitivity sends events) : dataOf events = sends.flatMap Sending.bytes := by
  induction h with
  | nil => rfl
  | @data bytes payloads sends events _ hflat _ _ ih =>
      have hpayloads : Assuan.dataOf
          (payloads.map fun payload => .data (PayloadRef.new payload sensitivity)) = bytes := by
        rw [← hflat]
        simp [Assuan.dataOf, List.flatMap_map, payloadRef_bytes, List.flatMap_id']
      rw [List.flatMap_cons, ← ih]
      show Assuan.dataOf (_ ++ events) = bytes ++ _
      rw [← hpayloads]
      simp [Assuan.dataOf]
  | status _ ih => exact ih

theorem Carries.statusesOf {sensitivity : Sensitivity} {events : List Event}
    (h : Carries sensitivity sends events) : statusesOf events = sends.filterMap Sending.status? := by
  induction h with
  | nil => rfl
  | @data bytes payloads sends events _ _ _ _ ih =>
      have hpayloads : Assuan.statusesOf
          (payloads.map fun payload => .data (PayloadRef.new payload sensitivity)) = [] := by
        simp [Assuan.statusesOf]
      rw [List.filterMap_cons_none rfl, ← ih]
      show Assuan.statusesOf (_ ++ events) = _
      simp only [Assuan.statusesOf, List.filterMap_append] at hpayloads ⊢
      rw [hpayloads, List.nil_append]
  | @status keyword args sends events _ ih =>
      have hhead : (Sending.status keyword args).status? = some (keyword, args) := rfl
      rw [List.filterMap_cons_some hhead, ← ih]
      simp [Assuan.statusesOf, payloadRef_bytes]

/-- One call and then more. -/
theorem collect_succ {n : ℕ} {event : Option Event} {events : List (Option Event)}
    {s s₁ s₂ : SessionCore × Completion} (hnext : Transaction.next s = (.ok event, s₁))
    (hrest : Transaction.collect n s₁ = (.ok events, s₂)) :
    Transaction.collect (n + 1) s = (.ok (event :: events), s₂) := by
  rw [Transaction.collect, Action.bind_ok hnext, Action.bind_ok hrest]
  rfl

/-- The pieces of one payload come out one by one. -/
theorem Attending.collect_data {payloads : List Bytes}
    (h : Attending core ((payloads.map dataLine).flatten ++ rest))
    (hlen : ∀ piece ∈ payloads, (dataLine piece).length ≤ maxLineBytes) :
    ∃ core', Attending core' rest ∧ core'.sensitivity = core.sensitivity ∧
      ∀ n events s, Transaction.collect n (core', .pending) = (.ok events, s) →
        Transaction.collect (payloads.length + n) (core, .pending) = (.ok (payloads.map
          (fun payload => some (.data (PayloadRef.new payload core.sensitivity))) ++ events), s) := by
  induction payloads generalizing core with
  | nil =>
      refine ⟨core, h, rfl, ?_⟩
      intro n events s hrest
      rw [List.length_nil, Nat.zero_add]
      exact hrest
  | cons piece payloads ih =>
      rw [List.map_cons, List.flatten_cons, List.append_assoc] at h
      obtain ⟨core₁, hnext, hattending, hsame⟩ := h.next_data (hlen piece List.mem_cons_self)
      obtain ⟨core', hattending', hsame', hcollect⟩ :=
        ih hattending fun p hp => hlen p (List.mem_cons_of_mem _ hp)
      refine ⟨core', hattending', hsame'.trans hsame, ?_⟩
      intro n events s hrest
      have hmore := hcollect n events s hrest
      rw [hsame] at hmore
      have hcount : (piece :: payloads).length + n = payloads.length + n + 1 := by
        rw [List.length_cons]
        omega
      rw [hcount]
      exact collect_succ hnext hmore

/-- All sends, by induction on their list: each is carried by its events, and the
transaction goes on behind them. -/
theorem Attending.collect_sends (hvalid : ∀ send ∈ sends, send.Valid)
    (h : Attending core ((sends.flatMap Sending.lines).flatten ++ rest)) :
    ∃ core' events, Attending core' rest ∧ core'.sensitivity = core.sensitivity ∧
      Carries core.sensitivity sends events ∧
      ∀ n more s, Transaction.collect n (core', .pending) = (.ok more, s) →
        Transaction.collect (events.length + n) (core, .pending) =
          (.ok (events.map some ++ more), s) := by
  induction sends generalizing core with
  | nil =>
      refine ⟨core, [], h, rfl, .nil, ?_⟩
      intro n more s hmore
      rw [List.length_nil, Nat.zero_add]
      exact hmore
  | cons send sends ih =>
      have hrest : ∀ send ∈ sends, send.Valid :=
        fun s hs => hvalid s (List.mem_cons_of_mem _ hs)
      rw [List.flatMap_cons, List.flatten_append, List.append_assoc] at h
      cases send with
      | data bytes =>
          obtain ⟨core₁, hattending, hsame, hcollect⟩ :=
            h.collect_data fun piece hpiece => dataLine_length hpiece
          obtain ⟨core', events, hattending', hsame', hcarries, hcollect'⟩ := ih hrest hattending
          rw [hsame] at hcarries
          refine ⟨core', _, hattending', hsame'.trans hsame, .data (pieces_ne_nil bytes)
            (pieces_flatten bytes) ?_ hcarries, ?_⟩
          · rintro rfl
            exact pieces_nil
          · intro n more s hmore
            have hall := hcollect _ _ s (hcollect' n more s hmore)
            rw [List.length_append, List.length_map, Nat.add_assoc, hall]
            simp
      | status keyword args =>
          have hline : (Sending.status keyword args).lines.flatten =
              responseBody (.status keyword args) ++ [lf] := by simp [Sending.lines]
          rw [hline] at h
          obtain ⟨core₁, hnext, hattending, hsame⟩ :=
            h.next_status (hvalid _ List.mem_cons_self)
          obtain ⟨core', events, hattending', hsame', hcarries, hcollect'⟩ := ih hrest hattending
          rw [hsame] at hcarries
          refine ⟨core', _, hattending', hsame'.trans hsame, .status hcarries, ?_⟩
          intro n more s hmore
          have hall := collect_succ hnext (hcollect' n more s hmore)
          rw [List.length_cons, Nat.add_right_comm, hall]
          rfl

/-- The events of the whole response. -/
theorem Attending.collect_response {result : Except HandlerError Unit}
    (hvalid : ∀ send ∈ sends, send.Valid) (hresult : ValidResult result)
    (h : Attending core (wire sends result).flatten) :
    ∃ events core', Carries core.sensitivity sends events ∧ core'.isUsable = true ∧
      Transaction.collect (events.length + 2) (core, .pending) =
        (.ok (events.map some ++ [some (.finished (finalCode result)
          (PayloadRef.new (finalText result) core.sensitivity)), none]),
          (core', completed (finalCode result))) := by
  have hsplit : (wire sends result).flatten = (sends.flatMap Sending.lines).flatten ++
      (responseBody (finalOf (finalCode result) (finalText result)) ++ [lf] ++ []) := by
    simp [wire]
  rw [hsplit] at h
  obtain ⟨core₁, events, hattending, hsame, hcarries, hcollect⟩ := h.collect_sends hvalid
  obtain ⟨core', hnext, -, husable⟩ := hattending.next_final hresult.encodable
  rw [hsame] at hnext
  have hdone : completed (finalCode result) ≠ .pending := by
    cases finalCode result <;> simp [completed]
  have hend := next_none husable hdone
  refine ⟨events, core', hcarries, husable, hcollect 2 _ _ ?_⟩
  exact collect_succ hnext (collect_succ hend rfl)

end Client

/-! ## §4  Both ends -/

/-- **Payload fidelity.** A callback that sends data and status lines and returns
`Ok` or a valid remote error leaves the server ready. However its output is cut
into reads, the calls of `next` return events that carry the sends in their order
and byte for byte, then the final response with its exact code, then `None`; and
the client is ready again. -/
theorem response_fidelity {S : Type} {service : Service S} {session : Session S} {input line : Bytes}
    {command : Command} {body : CommandContext S → Program S .context} {sends : List Sending}
    {result : Except HandlerError Unit} {state : S} (h : Handling session.link input)
    (hparse : Command.parse line = .ok command) (hhorizon : session.horizon = [])
    (htimeout : service.options.commandTimeout ≠ 0)
    (hdispatch : Session.dispatch service command =
      Session.callback service.options.maxInquiryBytes body)
    (hperforms : Performs (body ⟨session.state, session.authenticated⟩) sends result state)
    (hvalid : ∀ send ∈ sends, send.Valid) (hresult : ValidResult result) :
    ∃ session', Session.answer service line session = (.ok (command.name = "BYE"), session') ∧
      session'.link.machine.state = .ready ∧
      ∀ core : SessionCore, Attending core
          (written (session'.link.channel.trace.drop session.link.channel.trace.length)) →
        ∃ events core', Transaction.collect (events.length + 2) (core, .pending) =
            (.ok (events.map some ++ [some (.finished (finalCode result)
              (PayloadRef.new (finalText result) core.sensitivity)), none]),
              (core', completed (finalCode result))) ∧
          Carries core.sensitivity sends events ∧
          dataOf events = sends.flatMap Sending.bytes ∧
          statusesOf events = sends.filterMap Sending.status? ∧ core'.isUsable = true := by
  obtain ⟨session', hanswer, hready, -, htrace⟩ :=
    answer_ok h hparse hhorizon htimeout hdispatch hperforms hvalid hresult
  refine ⟨session', hanswer, hready, ?_⟩
  intro core hcore
  have hwritten : written (session'.link.channel.trace.drop session.link.channel.trace.length) =
      (wire sends result).flatten := by
    rw [htrace, List.drop_left, written_lines]
  rw [hwritten] at hcore
  obtain ⟨events, core', hcarries, husable, hcollect⟩ := hcore.collect_response hvalid hresult
  exact ⟨events, core', hcollect, hcarries, hcarries.dataOf, hcarries.statusesOf, husable⟩

/-- A service whose `RESET` hook sends some of everything and fails. -/
def resetService : Service Unit where
  registry := ⟨[], List.nodup_nil⟩
  hooks := { defaultHooks Unit with
    reset := fun _ =>
      .sendData [37, 10] fun _ => .sendStatus "PROGRESS" (asBytes "1 2") fun _ => .sendData [] fun _ =>
        .done (.error (.remote 7 "no")) () }
  options := ⟨1, 1, 1, 1, 1, 1, 1⟩
  listing := fun _ => []
  listing_names := fun _ => .refl _

def resetCommand : Command := ⟨"RESET", [], rfl, isCleanLine_nil⟩

def resetSession : Session Unit :=
  { Session.new ⟨[], []⟩ [] [] () with link := ⟨Channel.new ⟨[], []⟩ [], ⟨.handler, .greeting⟩⟩ }

/-- Its output, cut in the middle of an escape and of a line. -/
def resetChunks : List Chunk :=
  [⟨asBytes "D %25%", by decide, by decide⟩, ⟨asBytes "0A\nS PROGR", by decide, by decide⟩,
    ⟨asBytes "ESS 1 2\nD \nERR 7 no\n", by decide, by decide⟩]

def resetCore : SessionCore where
  channel := Channel.new ⟨resetChunks.map .data, []⟩ []
  machine := ⟨.command, .greeting⟩
  ioUncertain := false
  sensitivity := .secret
  commandTimeout := 30
  inquiryTimeout := 30
  maxInquiryBytes := 1024
  horizon := []
  allocations := []
  log := []

theorem response_fidelity_reset :
    ∃ events core', Transaction.collect (events.length + 2) (resetCore, .pending) =
        (.ok (events.map some ++ [some (.finished (some 7) (.secret (asBytes "no"))), none]),
          (core', .remote 7)) ∧
      dataOf events = [37, 10] ∧ statusesOf events = [("PROGRESS", asBytes "1 2")] := by
  have hhandling : Handling resetSession.link [] := ⟨ideal_new [], rfl⟩
  have hresult : ValidResult (.error (.remote 7 "no")) :=
    Or.inr ⟨7, "no", rfl, by decide +kernel⟩
  have hstatus : Encodable (.status "PROGRESS" (asBytes "1 2")) :=
    encodable_iff.mpr ⟨by constructor <;> decide, by decide, by decide⟩
  have hvalid : ∀ send ∈ [Sending.data [37, 10], .status "PROGRESS" (asBytes "1 2"), .data []],
      send.Valid := by
    intro send hsend
    simp only [List.mem_cons, List.not_mem_nil, or_false] at hsend
    rcases hsend with rfl | rfl | rfl
    · trivial
    · exact hstatus
    · trivial
  have hperforms : Performs (resetService.hooks.reset ⟨(), false⟩)
      [.data [37, 10], .status "PROGRESS" (asBytes "1 2"), .data []]
      (.error (.remote 7 "no")) () := .data (.status (.data (.done _ ())))
  obtain ⟨session', hanswer, -, hclient⟩ := @response_fidelity Unit resetService resetSession []
    (asBytes "RESET") resetCommand resetService.hooks.reset _ _ _ hhandling
    (Command.parse_eq_ok.mpr ⟨by decide, rfl⟩) rfl (by decide) rfl hperforms hvalid hresult
  obtain rfl : (Session.answer resetService (asBytes "RESET") resetSession).2 = session' := by
    rw [hanswer]
  have hwritten : written ((Session.answer resetService (asBytes "RESET")
      resetSession).2.link.channel.trace.drop resetSession.link.channel.trace.length) =
        (resetChunks.map Chunk.bytes).flatten := by decide +kernel
  rw [hwritten] at hclient
  obtain ⟨events, core', hcollect, -, hdata, hstatuses, -⟩ :=
    hclient resetCore ⟨ideal_new resetChunks, rfl, rfl⟩
  exact ⟨events, core', hcollect, hdata, hstatuses⟩

end Assuan
