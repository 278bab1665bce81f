import Assuan.Fidelity.Greeting
import Assuan.Fidelity.Rounds

/-!
# Conversations

A client connects, is greeted and goes through its turns: it sends a command, takes
the events, and answers the inquiries among them. A server goes through the rounds
that belong to them. Each side is run on a stream that carries what the other has
written; what a side is sent for an answer arrives after the answer.
-/

namespace Assuan

open Channel LineBuffer SessionCore

/-! ## §1  Input that arrives -/

/-- More input arrives on an open stream. -/
def Channel.deliver (chunks : List Chunk) (ch : Channel) : Channel :=
  { ch with stream := ch.stream.map fun stream =>
      { stream with reads := stream.reads ++ chunks.map .data } }

def SessionCore.deliver (chunks : List Chunk) (core : SessionCore) : SessionCore :=
  { core with channel := core.channel.deliver chunks }

def bytesOf (chunks : List Chunk) : Bytes := (chunks.map Chunk.bytes).flatten

section Arriving

variable {ch : Channel} {input : Bytes}

theorem incoming_append (reads : List ReadStep) (chunks : List Chunk) (h : Reliable reads) :
    incoming (reads ++ chunks.map .data) = incoming reads ++ bytesOf chunks := by
  induction reads with
  | nil => exact incoming_chunks chunks
  | cons step reads ih =>
      obtain ⟨chunk, rfl⟩ := h.head
      rw [List.cons_append, incoming, incoming, ih h.tail, List.append_assoc]

theorem Channel.Ideal.deliver (h : Ideal ch input) (chunks : List Chunk) :
    Ideal (ch.deliver chunks) (input ++ bytesOf chunks) := by
  obtain ⟨reads, line, unread, trace, rfl, hreads, hunread, rfl⟩ := h
  refine ⟨reads ++ chunks.map .data, line, unread, trace, rfl, ?_, hunread, ?_⟩
  · intro step hstep
    rcases List.mem_append.mp hstep with hstep | hstep
    · exact hreads step hstep
    · exact reliable_chunks chunks step hstep
  · rw [incoming_append reads chunks hreads, List.append_assoc]

/-- With nothing to read there is nothing read ahead. -/
theorem Channel.Ideal.drained {core : SessionCore} (h : Ideal core.channel []) :
    core.channel.hasBufferedInput = false := by
  rw [hasBufferedInput_eq_false h.standing]
  obtain ⟨reads, line, unread, trace, hchannel, -, hunread, hinput⟩ := h
  rw [hchannel, unreadBytes_standing hunread]
  exact (List.append_eq_nil_iff.mp hinput).1

end Arriving

/-! ## §2  The client -/

/-- An answer is sent and ended; a guard that has failed is dropped. -/
def Inquiry.answer (answer : Reply) (inquiry : Inquiry) : Action SessionCore ClientError Unit :=
  fun core =>
    match Action.forEach Inquiry.send answer.payloads (core, inquiry) with
    | (.ok (), s) => Inquiry.finish answer.cancelled s.2 s.1
    | (o, s) => (o, Inquiry.drop s)

/-- The events of a transaction, up to its end. The inquiries are answered in turn,
and behind each answer comes what it makes the server send. -/
def Transaction.follow : ℕ → List (Reply × List Chunk) →
    Action (SessionCore × Completion) ClientError (List Event)
  | 0, _ => Action.lift .panic
  | fuel + 1, script => do
      let event ← Transaction.next
      match event, script with
      | none, _ => pure []
      | some (.inquire inquiry), (answer, chunks) :: script => do
          onCore (Inquiry.answer answer inquiry)
          Action.modify fun s => (s.1.deliver chunks, s.2)
          let events ← follow fuel script
          pure (.inquire inquiry :: events)
      | some event, script => do
          let events ← follow fuel script
          pure (event :: events)

/-- A round at the client: what arrives after the command, and what arrives after each
answer. -/
structure Turn : Type where
  round : CommandRound
  sensitivity : Sensitivity
  arrives : List Chunk
  script : List (Reply × List Chunk)

/-- All that arrives. -/
def Turn.arrived (turn : Turn) : Bytes :=
  bytesOf turn.arrives ++ (turn.script.map fun s => bytesOf s.2).flatten

/-- One command; the transaction is dropped at its end. Every event but the last `None`
takes a line, so the bytes that arrive bound their number. -/
def Turn.perform (turn : Turn) : Action SessionCore ClientError (List Event) := do
  commandWith turn.round.command turn.sensitivity
  Action.modify (SessionCore.deliver turn.arrives)
  fun core =>
    let (o, s) := Transaction.follow (turn.arrived.length + 1) turn.script (core, .pending)
    (o, Transaction.drop s.1)

def converse : List Turn → Action SessionCore ClientError (List (List Event))
  | [] => pure []
  | turn :: turns => do
      let events ← turn.perform
      let rest ← converse turns
      pure (events :: rest)

/-- What the client is told of an act. -/
def Act.events (sensitivity : Sensitivity) : Act → List Event
  | .send (.data bytes) => (pieces bytes).map fun piece => .data (PayloadRef.new piece sensitivity)
  | .send (.status keyword args) => [.status keyword (PayloadRef.new args sensitivity)]
  | .note text => [.comment (PayloadRef.new (asBytes (" " ++ text)) sensitivity)]
  | .ask keyword args _ => [.inquire (asked keyword args)]

def Turn.events (turn : Turn) : List Event :=
  turn.round.acts.flatMap (Act.events turn.sensitivity) ++
    [.finished turn.round.code (PayloadRef.new turn.round.text turn.sensitivity)]

/-- How the lines of a response arrive: in pieces of any size up to the next inquiry,
and what follows it after the answer. -/
inductive Arrives (final : Bytes) :
    List Act → Bytes → List (Reply × List Chunk) → Prop where
  | final : Arrives final [] final []
  | send {sending : Sending} {acts : List Act} {input : Bytes}
      {script : List (Reply × List Chunk)} :
      Arrives final acts input script →
      Arrives final (.send sending :: acts) (sending.lines.flatten ++ input) script
  | note {text : String} {acts : List Act} {input : Bytes} {script : List (Reply × List Chunk)} :
      Arrives final acts input script →
      Arrives final (.note text :: acts) (helpLine text ++ input) script
  | ask {keyword : String} {args : Bytes} {answer : Reply} {chunks : List Chunk} {acts : List Act}
      {script : List (Reply × List Chunk)} :
      Arrives final acts (bytesOf chunks) script →
      Arrives final (.ask keyword args answer :: acts)
        (responseBody (.inquire keyword args) ++ [lf]) ((answer, chunks) :: script)

/-- The turn brings the response of its round. -/
def Turn.Brings (turn : Turn) : Prop :=
  Arrives (responseBody (finalOf turn.round.code turn.round.text) ++ [lf]) turn.round.acts
    (bytesOf turn.arrives) turn.script

theorem Arrives.lines {final input : Bytes} {acts : List Act} {script : List (Reply × List Chunk)}
    (h : Arrives final acts input script) :
    input ++ (script.map fun s => bytesOf s.2).flatten =
      (acts.flatMap Act.lines).flatten ++ final := by
  induction h with
  | final => simp
  | @send sending acts input script _ ih =>
      rw [List.append_assoc, ih, List.flatMap_cons, List.flatten_append, List.append_assoc]
      rfl
  | @note text acts input script _ ih =>
      rw [List.append_assoc, ih, List.flatMap_cons, List.flatten_append, List.append_assoc]
      simp [Act.lines]
  | @ask keyword args answer chunks acts script _ ih =>
      rw [List.map_cons, List.flatten_cons, ih, List.flatMap_cons, List.flatten_append]
      simp [Act.lines]

theorem Turn.Brings.arrived {turn : Turn} (h : turn.Brings) :
    turn.arrived = turn.round.response.flatten := by
  rw [Turn.arrived, Arrives.lines h, CommandRound.response, List.flatten_append]
  simp

/-! ## §3  What no operation touches -/

/-- The settings of a client, with memory and time to spare. -/
structure Ample (options : ClientOptions) (sensitivity : Sensitivity) (core : SessionCore) :
    Prop where
  timeout : core.commandTimeout = options.commandTimeout
  budget : core.maxInquiryBytes = options.maxInquiryBytes
  sensitivity : core.sensitivity = sensitivity
  horizon : core.horizon = []
  allocations : core.allocations = []

section Frames

variable {options : ClientOptions} {sensitivity : Sensitivity} {core core' : SessionCore}
  {α γ : Type}

/-- They are read off five fields. -/
theorem Ample.same (h : Ample options sensitivity core)
    (htimeout : core'.commandTimeout = core.commandTimeout)
    (hbudget : core'.maxInquiryBytes = core.maxInquiryBytes)
    (hsensitivity : core'.sensitivity = core.sensitivity) (hhorizon : core'.horizon = core.horizon)
    (hallocations : core'.allocations = core.allocations) :
    Ample options sensitivity core' :=
  ⟨htimeout.trans h.timeout, hbudget.trans h.budget, hsensitivity.trans h.sensitivity,
    hhorizon.trans h.horizon, hallocations.trans h.allocations⟩

theorem ample_invalidate (core : SessionCore) (h : Ample options sensitivity core) :
    Ample options sensitivity core.invalidate := h.same rfl rfl rfl rfl rfl

theorem ample_onChannel (x : Action Channel TransportError α) :
    Action.Keeps (Ample options sensitivity) (onChannel x) := fun _ h => h.same rfl rfl rfl rfl rfl

theorem ample_beginIo : Action.Keeps (Ample options sensitivity) beginIo :=
  fun _ h => h.same rfl rfl rfl rfl rfl

theorem ample_completeIo : Action.Keeps (Ample options sensitivity) completeIo :=
  fun _ h => h.same rfl rfl rfl rfl rfl

theorem ample_classify (line : Bytes) :
    Action.Keeps (Ample options sensitivity) (classify line) := by
  have hdecode : ∀ received,
      Action.Keeps (Ample options sensitivity) (decodePayload line received) := by
    intro received core h
    unfold decodePayload
    split
    · dsimp only
      split <;> exact h.same rfl rfl rfl rfl rfl
    · exact h
  have hreceive : ∀ received,
      Action.Keeps (Ample options sensitivity) (receiveEvent received) := by
    intro received core h
    unfold receiveEvent
    split <;> exact h.same rfl rfl rfl rfl rfl
  unfold classify
  refine (Action.keeps_lift _).bind ?_
  intro parsed
  refine (hdecode _).bind ?_
  intro received
  exact (hreceive received).bind fun _ => Action.keeps_pure _

theorem ample_read : Action.Keeps (Ample options sensitivity) SessionCore.read := by
  unfold SessionCore.read
  refine (keeps_check_of ample_invalidate).bind ?_
  intro _
  refine ample_beginIo.bind ?_
  intro _
  refine (Action.Keeps.onError ample_invalidate
    ((ample_onChannel _).bind fun line => ample_classify line)).bind ?_
  intro received
  refine ample_completeIo.bind ?_
  intro _
  have hlog : Action.Keeps (Ample options sensitivity) (Action.modify (logFinal received) :
      Action SessionCore ClientError Unit) := by
    intro core h
    show Ample options sensitivity (logFinal received core)
    rw [logFinal_eq]
    exact h.same rfl rfl rfl rfl rfl
  exact hlog.bind fun _ => Action.keeps_pure _

theorem ample_writeAt (bytes : Bytes) :
    Action.Keeps (Ample options sensitivity) (SessionCore.writeAt bytes) := by
  unfold SessionCore.writeAt
  refine (keeps_check_of ample_invalidate).bind ?_
  intro _
  refine ample_beginIo.bind ?_
  intro _
  refine (Action.Keeps.onError ample_invalidate (ample_onChannel _)).bind ?_
  intro _
  exact ample_completeIo

theorem ample_readEvent (fuel : ℕ) :
    Action.Keeps (Ample options sensitivity) (Transaction.readEvent fuel) := by
  induction fuel with
  | zero => exact Action.keeps_lift _
  | succ fuel ih =>
      refine ample_read.bind ?_
      intro received
      split
      · exact Action.keeps_pure received
      · exact ih

theorem ample_makeEvent (received : Received) :
    Action.Keeps (Ample options sensitivity) (Transaction.makeEvent received) := by
  have hallocate : Action.Keeps (Ample options sensitivity) Transaction.allocate := fun core h =>
    ⟨h.timeout, h.budget, h.sensitivity, h.horizon,
      by simp [Transaction.allocate, h.allocations]⟩
  have hinstant : Action.Keeps (Ample options sensitivity) checkedInstant := fun core h =>
    ⟨h.timeout, h.budget, h.sensitivity, by simp [checkedInstant, h.horizon], h.allocations⟩
  have hinquiry : Action.Keeps (Ample options sensitivity) (Transaction.newInquiry received) := by
    refine Action.Keeps.onError ample_invalidate ?_
    refine hallocate.bind ?_
    intro _
    refine Action.keeps_get.bind ?_
    intro core
    refine (Action.keeps_lift _).bind ?_
    intro line
    refine (Action.keeps_lift _).bind ?_
    intro keyword
    refine (Action.keeps_lift _).bind ?_
    intro metadata
    refine (Action.keeps_lift _).bind ?_
    intro args
    refine (Action.keeps_lift _).bind ?_
    intro metadata'
    refine hinstant.bind ?_
    intro _
    exact Action.keeps_pure _
  have hplain : Action.Keeps (Ample options sensitivity) (Transaction.plainEvent received) := by
    refine Action.keeps_get.bind ?_
    intro core
    refine (Action.keeps_lift _).bind ?_
    intro line
    refine (Action.keeps_lift _).bind ?_
    intro payload
    exact Action.keeps_lift _
  unfold Transaction.makeEvent
  split
  · exact hinquiry.bind fun _ => Action.keeps_pure _
  · exact hplain

theorem ample_next :
    Action.Keeps (fun s : SessionCore × Completion => Ample options sensitivity s.1)
      Transaction.next := by
  have hrefuse : Action.Keeps (Ample options sensitivity) Transaction.refuseInquiry := by
    intro core h
    unfold Transaction.refuseInquiry
    split
    · exact ample_invalidate core h
    · exact h
  unfold Transaction.next
  refine (keeps_onCore (keeps_check_of ample_invalidate)).bind ?_
  intro _
  refine (keeps_onCore hrefuse).bind ?_
  intro _
  refine Action.keeps_get.bind ?_
  intro s
  split
  · exact Action.keeps_pure none
  · refine Action.keeps_get.bind ?_
    intro s
    refine (keeps_onCore (ample_readEvent _)).bind ?_
    intro received
    have hsettle : Action.Keeps (fun s : SessionCore × Completion => Ample options sensitivity s.1)
        (Action.modify fun s => (s.1, Transaction.completionOf received s.2) :
          Action (SessionCore × Completion) ClientError Unit) := fun s h => h
    refine hsettle.bind ?_
    intro _
    refine (keeps_onCore (ample_makeEvent received)).bind ?_
    intro event
    exact Action.keeps_pure _

theorem ample_sends (payloads : List Bytes) :
    Action.Keeps (fun s : SessionCore × Inquiry => Ample options sensitivity s.1)
      (Action.forEach Inquiry.send payloads) := by
  apply Action.Keeps.forEach
  intro bytes _ s h
  have hkept := @keeps_send_of (Ample options sensitivity) (fun _ => True) ample_invalidate
    ample_writeAt (fun _ _ h => h) bytes
  exact (hkept s ⟨h, trivial⟩).1

end Frames

/-! ## §4  What the server may do -/

/-- After a cancelled inquiry nothing follows but status lines. -/
inductive Orderly : Bool → List Act → Prop where
  | nil (cancelled : Bool) : Orderly cancelled []
  | data {bytes : Bytes} {acts : List Act} :
      Orderly false acts → Orderly false (.send (.data bytes) :: acts)
  | status {keyword : String} {args : Bytes} {cancelled : Bool} {acts : List Act} :
      Orderly cancelled acts → Orderly cancelled (.send (.status keyword args) :: acts)
  | note {text : String} {cancelled : Bool} {acts : List Act} :
      Orderly cancelled acts → Orderly cancelled (.note text :: acts)
  | ask {keyword : String} {args : Bytes} {answer : Reply} {acts : List Act} :
      Orderly answer.cancelled acts → Orderly false (.ask keyword args answer :: acts)

section Order

variable {S : Type} {service : Service S}

theorem Engages.orderly {stage stage' : Stage} {program : Program S .context} {acts : List Act}
    {result : Except HandlerError Unit} {state : S}
    (h : Engages stage program acts stage' result state) : Orderly stage.cancelled acts := by
  induction h with
  | done stage result state => exact .nil _
  | data _ ih => exact .data ih
  | status _ ih => exact .status ih
  | ask _ _ ih => exact .ask ih

theorem orderly_notes {acts : List Act} (h : ∀ act ∈ acts, ∃ text, act = .note text) :
    Orderly false acts := by
  induction acts with
  | nil => exact .nil false
  | cons act acts ih =>
      obtain ⟨text, rfl⟩ := h act List.mem_cons_self
      exact .note (ih fun a ha => h a (List.mem_cons_of_mem _ ha))

theorem Handles.orderly {command : Command} {state state' : S} {acts : List Act}
    {result : Except HandlerError Unit} (h : Handles service command state acts result state') :
    Orderly false acts := by
  cases h with
  | settle _ => exact .nil false
  | callback _ hengages => exact hengages.orderly
  | help _ _ =>
      apply orderly_notes
      intro act hact
      obtain ⟨e, -, hnote⟩ := List.mem_flatMap.mp hact
      obtain ⟨text, -, rfl⟩ := List.mem_map.mp hnote
      exact ⟨text, rfl⟩

theorem Converses.orderly {state state' : S} {rounds : List CommandRound}
    (h : Converses service state rounds state') :
    ∀ round ∈ rounds, Orderly false round.acts := by
  induction h with
  | nil state => simp
  | round hhandles _ _ _ ih =>
      intro round hround
      rcases List.mem_cons.mp hround with rfl | hround
      · exact hhandles.orderly
      · exact ih round hround

end Order

/-! ### Its lines are well formed -/

theorem Encodable.wired {line : ServerLine} (h : Encodable line) (hdata : line.kind ≠ .data) :
    Wired (responseBody line ++ [lf]) line := by
  obtain ⟨-, hvalid, hclean, hlen⟩ := h.cases
  refine ⟨terminated_of_clean hclean, by simpa using hlen, ?_, ?_⟩
  · rw [stripTerminator_clean hclean]
    exact parseServerLine_responseBody hvalid hclean
  · rw [content_of_kind hdata]
    rfl

theorem dataLine_wired {bytes piece : Bytes} (h : piece ∈ pieces bytes) :
    Wired (dataLine piece) (.data (escapeBytes piece)) := by
  have hclean := dataLine_body_clean piece
  refine ⟨terminated_of_clean hclean, dataLine_length h, ?_, ?_⟩
  · rw [dataLine, stripTerminator_clean hclean, (parseServerLine_tagged _).2.2.2.1,
      validateLine_eq_ok.mpr hclean, Outcome.ok_bind]
  · rw [ServerLine.content, decodeRef_escapeBytes]
    rfl

theorem Act.Valid.terminated {limit : ℕ} {act : Act} (h : act.Valid limit) :
    ∀ line ∈ act.lines, Terminated lf line := by
  intro line hline
  cases act with
  | send sending =>
      cases sending with
      | data bytes =>
          obtain ⟨piece, hpiece, rfl⟩ := List.mem_map.mp hline
          exact (dataLine_wired hpiece).terminated
      | status keyword args =>
          obtain rfl := List.mem_singleton.mp hline
          have hencodable : Encodable (.status keyword args) := h
          exact (hencodable.wired (by simp [ServerLine.kind])).terminated
  | note text =>
      obtain rfl := List.mem_singleton.mp hline
      have htext : Listable text := h
      rw [← helpComment_line]
      exact (htext.encodable.wired (by simp [helpComment, ServerLine.kind])).terminated
  | ask keyword args answer =>
      obtain rfl := List.mem_singleton.mp hline
      exact (h.1.wired (by simp [ServerLine.kind])).terminated

/-- There is one event for each line. -/
theorem Act.events_length (sensitivity : Sensitivity) (act : Act) :
    (act.events sensitivity).length = act.lines.length := by
  rcases act with (bytes | ⟨keyword, args⟩) | text | ⟨keyword, args, answer⟩ <;>
    simp [Act.events, Act.lines, Sending.lines]

/-- The bytes of a response bound the events of its turn. -/
theorem CommandRound.Valid.events_le {limit : ℕ} {round : CommandRound} (h : round.Valid limit)
    (sensitivity : Sensitivity) :
    (round.acts.flatMap (Act.events sensitivity)).length + 1 ≤ round.response.flatten.length := by
  have hlength : (round.acts.flatMap (Act.events sensitivity)).length + 1 =
      round.response.length := by
    simp only [CommandRound.response, List.length_append, List.length_flatMap, Act.events_length,
      List.length_singleton]
  have hterminated : ∀ line ∈ round.response, Terminated lf line := by
    intro line hline
    rcases List.mem_append.mp hline with hline | hline
    · obtain ⟨act, hact, hline⟩ := List.mem_flatMap.mp hline
      exact (h.acts act hact).terminated line hline
    · obtain rfl := List.mem_singleton.mp hline
      exact terminated_of_clean h.final.cases.2.2.1
  rw [hlength]
  exact length_le_flatten hterminated

/-! ## §5  A transaction to its end -/

/-- A client between the events of a response, with `input` left to read. -/
structure Following (options : ClientOptions) (sensitivity : Sensitivity) (core : SessionCore)
    (cancelled : Bool) (input : Bytes) : Prop where
  expecting : Expecting core input
  state : core.machine.state = if cancelled then .awaitFinal else .command
  origin : cancelled = true → core.machine.inquiryOrigin = .command
  ample : Ample options sensitivity core

section Followed

variable {options : ClientOptions} {sensitivity : Sensitivity} {core core' : SessionCore}
  {cancelled : Bool} {seg rest : Bytes} {parsed : ServerLine} {fuel : ℕ} {event : Event}
  {script : List (Reply × List Chunk)} {events : List Event} {s : SessionCore × Completion}

theorem Following.working (h : Following options sensitivity core cancelled rest) :
    Working core.machine := by
  rw [Working, h.state]
  cases cancelled <;> simp

/-- What the machine accepts without a change. -/
theorem Following.receive (h : Following options sensitivity core cancelled rest) {kind : LineKind}
    (hkind : kind = .status ∨ kind = .comment ∨ (kind = .data ∧ cancelled = false)) :
    core.machine.receive kind = (.ok (), core.machine) := by
  have hstate := h.state
  rcases hkind with rfl | rfl | ⟨rfl, rfl⟩
  · cases cancelled <;> simp_all [ClientMachine.receive]
  · cases cancelled <;> simp_all [ClientMachine.receive]
  · simp_all [ClientMachine.receive]

/-- An event that neither asks nor ends. -/
theorem Following.next (h : Following options sensitivity core cancelled (seg ++ rest))
    (hw : Wired seg parsed)
    (hkind : parsed.kind = .status ∨ parsed.kind = .comment ∨
      (parsed.kind = .data ∧ cancelled = false)) :
    ∃ event core', Transaction.next (core, .pending) = (.ok (some event), (core', .pending)) ∧
      told sensitivity parsed = some event ∧
      Following options sensitivity core' cancelled rest ∧
      written core'.channel.trace = written core.channel.trace := by
  have hempty : parsed ≠ .empty := by
    rintro rfl
    simp [ServerLine.kind] at hkind
  obtain ⟨event, core', hnext, htold, hsteady, -⟩ :=
    h.expecting.next hw (h.receive hkind) hempty
  have hpending : settled parsed = .pending := by
    rw [settled, if_neg]
    rcases hkind with h | h | ⟨h, -⟩ <;> simp [h]
  have hample : Ample options sensitivity core' := by
    have hkept := ample_next (core, .pending) h.ample
    rwa [hnext] at hkept
  rw [hpending] at hnext
  rw [h.ample.sensitivity] at htold
  refine ⟨event, core', hnext, htold, ⟨hsteady.expecting h.working, ?_, ?_, hample⟩,
    hsteady.written⟩
  · rw [hsteady.machine, h.state]
  · rw [hsteady.machine]
    exact h.origin

theorem follow_event
    (hnext : Transaction.next (core, .pending) = (.ok (some event), (core', .pending)))
    (hevent : ∀ inquiry, event ≠ .inquire inquiry)
    (hrest : Transaction.follow fuel script (core', .pending) = (.ok events, s)) :
    Transaction.follow (fuel + 1) script (core, .pending) = (.ok (event :: events), s) := by
  rw [Transaction.follow, Action.bind_ok hnext]
  cases event with
  | inquire inquiry => exact absurd rfl (hevent inquiry)
  | _ => exact Action.bind_ok hrest

theorem follow_inquire {inquiry : Inquiry} {core'' : SessionCore} {answer : Reply}
    {chunks : List Chunk}
    (hnext : Transaction.next (core, .pending) = (.ok (some (.inquire inquiry)), (core', .pending)))
    (hanswer : Inquiry.answer answer inquiry core' = (.ok (), core''))
    (hrest : Transaction.follow fuel script (core''.deliver chunks, .pending) = (.ok events, s)) :
    Transaction.follow (fuel + 1) ((answer, chunks) :: script) (core, .pending) =
      (.ok (.inquire inquiry :: events), s) := by
  have hanswer' : onCore (Inquiry.answer answer inquiry) (core', Completion.pending) =
      (.ok (), (core'', .pending)) := Action.zoom_apply hanswer
  rw [Transaction.follow, Action.bind_ok hnext]
  show (onCore (Inquiry.answer answer inquiry) >>= _) _ = _
  rw [Action.bind_ok hanswer', Action.bind_ok (Action.modify_apply _ _), Action.bind_ok hrest]
  rfl

/-- The pieces of data, one event each. -/
theorem Following.parts {parts : List Bytes}
    (hparts : ∀ piece ∈ parts, Wired (dataLine piece) (.data (escapeBytes piece)))
    (h : Following options sensitivity core false ((parts.map dataLine).flatten ++ rest)) :
    ∃ core', Following options sensitivity core' false rest ∧
      written core'.channel.trace = written core.channel.trace ∧ ∀ {fuel script events s},
      Transaction.follow fuel script (core', .pending) = (.ok events, s) →
      Transaction.follow (parts.length + fuel) script (core, .pending) =
        (.ok (parts.map (fun piece => .data (PayloadRef.new piece sensitivity)) ++ events), s) := by
  induction parts generalizing core with
  | nil =>
      refine ⟨core, h, rfl, ?_⟩
      intro fuel script events s hrest
      rwa [List.length_nil, Nat.zero_add]
  | cons piece parts ih =>
      rw [List.map_cons, List.flatten_cons, List.append_assoc] at h
      obtain ⟨event, core₁, hnext, htold, hfollowing, hwritten⟩ :=
        h.next (hparts piece List.mem_cons_self) (by simp [ServerLine.kind])
      rw [told, decodeRef_escapeBytes] at htold
      obtain rfl := Option.some.inj htold
      obtain ⟨core', hfollowing', hwritten', hlater⟩ :=
        ih (fun p hp => hparts p (List.mem_cons_of_mem _ hp)) hfollowing
      refine ⟨core', hfollowing', hwritten'.trans hwritten, ?_⟩
      intro fuel script events s hrest
      have hcount : (piece :: parts).length + fuel = parts.length + fuel + 1 := by
        rw [List.length_cons]
        omega
      rw [hcount]
      exact follow_event hnext (by simp) (hlater hrest)

/-! ### An inquiry -/

/-- The whole of an answer is written, and the inquiry is over. -/
theorem Answering.answer {input : Bytes} {inquiry : Inquiry} {answer : Reply}
    (h : Answering core input) (hample : Ample options sensitivity core)
    (hsent : inquiry.sent = 0) (hmax : options.maxInquiryBytes ≤ usizeMax)
    (hfits : answer.payloads.flatten.length ≤ options.maxInquiryBytes) :
    ∃ core', Inquiry.answer answer inquiry core = (.ok (), core') ∧ Ideal core'.channel input ∧
      core'.ioUncertain = false ∧ core'.machine = { core.machine with
        state := if answer.cancelled then .awaitFinal else core.machine.inquiryOrigin } ∧
      Ample options sensitivity core' ∧
      written core'.channel.trace = written core.channel.trace ++ answer.lines.flatten := by
  obtain ⟨core₁, hsend, hanswering, hsame⟩ :=
    @Answering.sendAll core input inquiry answer.payloads h
    (by rw [hample.budget]; exact hmax) (by rw [hample.budget, hsent, Nat.zero_add]; exact hfits)
  have hample₁ : Ample options sensitivity core₁ := by
    have hkept := ample_sends answer.payloads (core, inquiry) hample
    rwa [hsend] at hkept
  obtain ⟨ch, hfinish, hideal, htrace, -⟩ := @finishInquiry_ideal core₁ input
    { inquiry with sent := inquiry.sent + answer.payloads.flatten.length } hanswering.ideal
    hanswering.not_poisoned hanswering.state answer.cancelled
  refine ⟨{ core₁ with
    channel := ch
    machine := { core₁.machine with
      state := if answer.cancelled then .awaitFinal else core₁.machine.inquiryOrigin } }, ?_,
    hideal, hanswering.certain, ?_, hample₁.same rfl rfl rfl rfl rfl, ?_⟩
  · simp only [Inquiry.answer, hsend]
    exact hfinish
  · simp only [hsame.machine]
  · show written ch.trace = _
    rw [htrace, hsame.trace, written_append, written_append, written_lines, written_wrote,
      List.append_assoc, Reply.lines, List.flatten_append]
    simp [Reply.parts]

/-- The client is asked and answers, and the rest of the response arrives. -/
theorem Following.ask {keyword : String} {args : Bytes} {answer : Reply} {chunks : List Chunk}
    (h : Following options sensitivity core false (responseBody (.inquire keyword args) ++ [lf]))
    (hencodable : Encodable (.inquire keyword args)) (hmax : options.maxInquiryBytes ≤ usizeMax)
    (hfits : answer.payloads.flatten.length ≤ options.maxInquiryBytes) :
    ∃ core₁ core₂,
      Transaction.next (core, .pending) =
        (.ok (some (.inquire (asked keyword args))), (core₁, .pending)) ∧
      Inquiry.answer answer (asked keyword args) core₁ = (.ok (), core₂) ∧
      Following options sensitivity (core₂.deliver chunks) answer.cancelled (bytesOf chunks) ∧
      written core₂.channel.trace = written core.channel.trace ++ answer.lines.flatten := by
  have hreceive : core.machine.receive .inquire = (.ok (), ⟨.inquiry, .command⟩) := by
    have hstate := h.state
    simp_all [ClientMachine.receive]
  have hinput : Expecting core (responseBody (.inquire keyword args) ++ [lf] ++ []) := by
    rw [List.append_nil]
    exact h.expecting
  obtain ⟨event, core₁, hnext, htold, hsteady, -⟩ :=
    hinput.next (hencodable.wired (by simp [ServerLine.kind])) hreceive (by simp)
  obtain rfl := Option.some.inj htold
  have hample : Ample options sensitivity core₁ := by
    have hkept := ample_next (core, .pending) h.ample
    rwa [hnext] at hkept
  have hanswering : Answering core₁ [] := ⟨hsteady.ideal, hsteady.certain, by rw [hsteady.machine]⟩
  obtain ⟨core₂, hanswer, hideal, hcertain, hmachine, hample', hwritten⟩ :=
    @Answering.answer _ _ _ _ (asked keyword args) answer hanswering hample rfl hmax hfits
  rw [hsteady.machine] at hmachine
  refine ⟨core₁, core₂, hnext, hanswer, ⟨⟨?_, ?_, ?_, hample'.allocations, hample'.horizon⟩, ?_, ?_,
    hample'.same rfl rfl rfl rfl rfl⟩, ?_⟩
  · exact hideal.deliver chunks
  · have hstate : core₂.machine.state ≠ .invalid ∧ core₂.machine.state ≠ .closed := by
      rw [hmachine]
      cases answer.cancelled <;> simp
    exact live_of_certain hcertain hstate
  · show core₂.machine.state ≠ .inquiry
    rw [hmachine]
    cases answer.cancelled <;> simp
  · show core₂.machine.state = _
    rw [hmachine]
  · intro _
    show core₂.machine.inquiryOrigin = _
    rw [hmachine]
  · rw [hwritten, hsteady.written]

/-! ### The final response -/

/-- A client between two commands: it is usable, and all that arrived was read. -/
structure Resting (options : ClientOptions) (core : SessionCore) : Prop where
  ideal : Ideal core.channel []
  usable : core.isUsable = true
  ample : ∃ sensitivity, Ample options sensitivity core

theorem Following.final {code : Option UInt32} {text : Bytes}
    (h : Following options sensitivity core cancelled (responseBody (finalOf code text) ++ [lf]))
    (hencodable : Encodable (finalOf code text)) (fuel : ℕ) (script : List (Reply × List Chunk)) :
    ∃ core', Transaction.follow (fuel + 2) script (core, .pending) =
        (.ok [.finished code (PayloadRef.new text sensitivity)], (core', completed code)) ∧
      Resting options core' ∧ written core'.channel.trace = written core.channel.trace := by
  have hkind : (finalOf code text).kind = .ok ∨ (finalOf code text).kind = .err := by
    cases code <;> simp [finalOf, ServerLine.kind]
  have hreceive : core.machine.receive (finalOf code text).kind =
      (.ok (), { core.machine with state := .ready }) := by
    have hstate := h.state
    have horigin := h.origin
    cases code <;> cases cancelled <;> simp_all [ClientMachine.receive, finalOf, ServerLine.kind]
  have hinput : Expecting core (responseBody (finalOf code text) ++ [lf] ++ []) := by
    rw [List.append_nil]
    exact h.expecting
  have hwired := hencodable.wired (by cases code <;> simp [finalOf, ServerLine.kind])
  obtain ⟨event, core', hnext, htold, hsteady, -⟩ :=
    hinput.next hwired hreceive (by cases code <;> simp [finalOf])
  have hevent : event = .finished code (PayloadRef.new text sensitivity) := by
    rw [h.ample.sensitivity] at htold
    cases code <;> exact (Option.some.inj htold).symm
  have hsettled : settled (finalOf code text) = completed code := by
    rw [settled, if_pos hkind]
    cases code <;> rfl
  have hample : Ample options sensitivity core' := by
    have hkept := ample_next (core, .pending) h.ample
    rwa [hnext] at hkept
  have husable : core'.isUsable = true := by
    rw [isUsable, hsteady.certain, hsteady.machine]
    rfl
  have hdone : completed code ≠ .pending := by cases code <;> simp [completed]
  rw [hsettled, hevent] at hnext
  refine ⟨core', ?_, ⟨hsteady.ideal, husable, sensitivity, hample⟩, hsteady.written⟩
  rw [Transaction.follow, Action.bind_ok hnext]
  show (Transaction.follow (fuel + 1) script >>= _) _ = _
  have hlast : Transaction.follow (fuel + 1) script (core', completed code) =
      (.ok [], (core', completed code)) := by
    rw [Transaction.follow, Action.bind_ok (next_none husable hdone)]
    rfl
  rw [Action.bind_ok hlast]
  rfl

/-- **A transaction to its end.** The induction is on the way in which the response
arrives; `fuel` is more than the number of the events. -/
theorem Following.follow {code : Option UInt32} {text input : Bytes} {acts : List Act}
    (harrives : Arrives (responseBody (finalOf code text) ++ [lf]) acts input script)
    (horderly : Orderly cancelled acts) (hvalid : ∀ act ∈ acts, act.Valid options.maxInquiryBytes)
    (hencodable : Encodable (finalOf code text)) (hmax : options.maxInquiryBytes ≤ usizeMax)
    (h : Following options sensitivity core cancelled input)
    (hfuel : (acts.flatMap (Act.events sensitivity)).length + 1 < fuel) :
    ∃ core', Transaction.follow fuel script (core, .pending) =
        (.ok (acts.flatMap (Act.events sensitivity) ++
          [.finished code (PayloadRef.new text sensitivity)]), (core', completed code)) ∧
      Resting options core' ∧ written core'.channel.trace =
        written core.channel.trace ++ (acts.flatMap Act.replies).flatten := by
  induction harrives generalizing core cancelled fuel with
  | final =>
      obtain ⟨fuel, rfl⟩ : ∃ n, fuel = n + 2 := ⟨fuel - 2, by simp at hfuel; omega⟩
      obtain ⟨core', hfollow, hresting, hwritten⟩ := h.final hencodable fuel []
      exact ⟨core', hfollow, hresting, by rw [hwritten]; simp⟩
  | @send sending acts input script _ ih =>
      have hlater : ∀ act ∈ acts, act.Valid options.maxInquiryBytes :=
        fun act hact => hvalid act (List.mem_cons_of_mem _ hact)
      rw [List.flatMap_cons, List.length_append] at hfuel
      cases horderly with
      | @data bytes _ horderly =>
          obtain ⟨core₁, hfollowing, hwritten, hpieces⟩ :=
            h.parts fun piece hpiece => dataLine_wired hpiece
          simp only [Act.events, List.length_map] at hfuel
          obtain ⟨core', hfollow, hresting, hwritten'⟩ := @ih core₁ false
            (fuel - (pieces bytes).length) horderly hlater hfollowing (by omega)
          have hrun := hpieces hfollow
          rw [Nat.add_sub_cancel' (by omega)] at hrun
          refine ⟨core', ?_, hresting, ?_⟩
          · rw [hrun, List.flatMap_cons, List.append_assoc]
            rfl
          · rw [hwritten', hwritten]
            rfl
      | @status keyword args _ _ horderly =>
          have hstatus : Encodable (.status keyword args) := hvalid _ List.mem_cons_self
          have hinput : Following options sensitivity core cancelled
              (responseBody (.status keyword args) ++ [lf] ++ input) := by
            simpa [Sending.lines] using h
          obtain ⟨event, core₁, hnext, htold, hfollowing, hwritten⟩ :=
            hinput.next (hstatus.wired (by simp [ServerLine.kind])) (Or.inl rfl)
          obtain rfl := Option.some.inj htold
          obtain ⟨fuel, rfl⟩ : ∃ n, fuel = n + 1 := ⟨fuel - 1, by omega⟩
          simp only [Act.events, List.length_singleton] at hfuel
          obtain ⟨core', hfollow, hresting, hwritten'⟩ :=
            @ih core₁ cancelled fuel horderly hlater hfollowing (by omega)
          refine ⟨core', follow_event hnext (by simp) hfollow, hresting, ?_⟩
          rw [hwritten', hwritten]
          rfl
  | @note text' acts input script _ ih =>
      have hlater : ∀ act ∈ acts, act.Valid options.maxInquiryBytes :=
        fun act hact => hvalid act (List.mem_cons_of_mem _ hact)
      have htext : Listable text' := hvalid _ List.mem_cons_self
      cases horderly with
      | note horderly =>
          rw [← helpComment_line] at h
          obtain ⟨event, core₁, hnext, htold, hfollowing, hwritten⟩ := h.next
            (htext.encodable.wired (by simp [helpComment, ServerLine.kind])) (Or.inr (Or.inl rfl))
          obtain rfl := Option.some.inj htold
          obtain ⟨fuel, rfl⟩ : ∃ n, fuel = n + 1 := ⟨fuel - 1, by omega⟩
          simp only [List.flatMap_cons, List.length_append, Act.events, List.length_singleton]
            at hfuel
          obtain ⟨core', hfollow, hresting, hwritten'⟩ :=
            @ih core₁ cancelled fuel horderly hlater hfollowing (by omega)
          refine ⟨core', follow_event hnext (by simp) hfollow, hresting, ?_⟩
          rw [hwritten', hwritten]
          rfl
  | @ask keyword args answer chunks acts script _ ih =>
      have hlater : ∀ act ∈ acts, act.Valid options.maxInquiryBytes :=
        fun act hact => hvalid act (List.mem_cons_of_mem _ hact)
      obtain ⟨hinquire, hfits⟩ := hvalid _ List.mem_cons_self
      cases horderly with
      | ask horderly =>
          obtain ⟨core₁, core₂, hnext, hanswer, hfollowing, hwritten⟩ :=
            @Following.ask _ _ _ _ _ answer chunks h hinquire hmax hfits
          obtain ⟨fuel, rfl⟩ : ∃ n, fuel = n + 1 := ⟨fuel - 1, by omega⟩
          simp only [List.flatMap_cons, List.length_append, Act.events, List.length_singleton]
            at hfuel
          obtain ⟨core', hfollow, hresting, hwritten'⟩ :=
            ih horderly hlater hfollowing (by omega : _ < fuel)
          refine ⟨core', follow_inquire hnext hanswer hfollow, hresting, ?_⟩
          have hdelivered : written (core₂.deliver chunks).channel.trace =
              written core₂.channel.trace := rfl
          rw [hwritten', hdelivered, hwritten, List.flatMap_cons, List.flatten_append,
            List.append_assoc]
          rfl

end Followed

/-! ## §6  The turns -/

section Turns

variable {options : ClientOptions} {core : SessionCore}

theorem Resting.live (h : Resting options core) : ¬ core.Poisoned := live_of_usable h.usable

theorem Resting.ready (h : Resting options core) : core.machine.state = .ready := by
  have husable := h.usable
  simp only [isUsable, Bool.decide_and, Bool.and_eq_true, decide_eq_true_eq] at husable
  exact husable.2

/-- The command is sent, and what arrives for it is followed. -/
theorem Resting.sent {command : Command} (h : Resting options core)
    (hfits : (commandBody command).length + 1 ≤ maxLineBytes)
    (htimeout : options.commandTimeout ≠ 0) (sensitivity : Sensitivity) (chunks : List Chunk) :
    ∃ core', commandWith command sensitivity core = (.ok (), core') ∧
      Following options sensitivity (core'.deliver chunks) false (bytesOf chunks) ∧
      written core'.channel.trace =
        written core.channel.trace ++ (commandBody command ++ [lf]) := by
  obtain ⟨sensitivity', hample⟩ := h.ample
  have hbytes : encoded (encodeCommand command) = .ok (commandBody command ++ [lf]) := by
    rcases encoded_cases (encodeCommand_writesLine command (Buffer.zero _)) with
      ⟨hok, -⟩ | ⟨-, hnot⟩
    · exact hok
    · exact absurd ⟨trivial, commandBody_clean command, hfits⟩ hnot
  obtain ⟨ch, hsent, hideal, htrace⟩ := commandWith_ideal h.ideal h.ideal.drained h.live h.ready
    hbytes (validateWireLine_clean (commandBody_clean command) hfits)
    (by rw [hample.timeout]; exact htimeout) hample.horizon sensitivity
  have hlive := certain_of_live h.live
  refine ⟨_, hsent, ⟨⟨hideal.deliver chunks, live_of_certain hlive ?_, ?_, hample.allocations,
    hample.horizon⟩, rfl, by simp, ⟨hample.timeout, hample.budget, rfl, hample.horizon,
    hample.allocations⟩⟩, ?_⟩
  · exact ⟨by simp [SessionCore.deliver], by simp [SessionCore.deliver]⟩
  · simp [SessionCore.deliver]
  · show written ch.trace = _
    rw [htrace, written_append, written_wrote]

/-- A turn, from one rest to the next. -/
theorem Turn.perform_ok {turn : Turn} {limit : ℕ} (hbrings : turn.Brings)
    (horderly : Orderly false turn.round.acts) (hserver : turn.round.Valid limit)
    (hclient : ∀ act ∈ turn.round.acts, act.Valid options.maxInquiryBytes)
    (hmax : options.maxInquiryBytes ≤ usizeMax) (htimeout : options.commandTimeout ≠ 0)
    (h : Resting options core) :
    ∃ core', turn.perform core = (.ok turn.events, core') ∧ Resting options core' ∧
      written core'.channel.trace =
        written core.channel.trace ++ turn.round.request.flatten := by
  obtain ⟨core₁, hsent, hfollowing, hwritten⟩ := h.sent hserver.fits htimeout turn.sensitivity
    turn.arrives
  have hfuel : (turn.round.acts.flatMap (Act.events turn.sensitivity)).length + 1 <
      turn.arrived.length + 1 := by
    rw [hbrings.arrived]
    exact Nat.lt_succ_of_le (hserver.events_le turn.sensitivity)
  obtain ⟨core', hfollow, hresting, hwritten'⟩ :=
    hfollowing.follow hbrings horderly hclient hserver.final hmax hfuel
  have hdrop : Transaction.drop core' = core' := by
    have hcertain := certain_of_live hresting.live
    rw [Transaction.drop, if_neg (by simp [hcertain, hresting.ready])]
  refine ⟨core', ?_, hresting, ?_⟩
  · refine (Action.bind_ok hsent).trans ((Action.bind_ok (Action.modify_apply _ _)).trans ?_)
    simp only [hfollow, hdrop]
    rfl
  · have hdelivered : written (core₁.deliver turn.arrives).channel.trace =
        written core₁.channel.trace := rfl
    rw [hwritten', hdelivered, hwritten, CommandRound.request, List.flatten_cons, List.append_assoc]

/-- One turn after the other. -/
theorem converse_ok {turns : List Turn} {limit : ℕ} (hbrings : ∀ turn ∈ turns, turn.Brings)
    (horderly : ∀ turn ∈ turns, Orderly false turn.round.acts)
    (hserver : ∀ turn ∈ turns, turn.round.Valid limit)
    (hclient : ∀ turn ∈ turns, ∀ act ∈ turn.round.acts, act.Valid options.maxInquiryBytes)
    (hmax : options.maxInquiryBytes ≤ usizeMax) (htimeout : options.commandTimeout ≠ 0)
    (h : Resting options core) :
    ∃ core', converse turns core = (.ok (turns.map Turn.events), core') ∧ Resting options core' ∧
      written core'.channel.trace =
        written core.channel.trace ++ (turns.flatMap fun t => t.round.request).flatten := by
  induction turns generalizing core with
  | nil => exact ⟨core, rfl, h, by simp⟩
  | cons turn turns ih =>
      obtain ⟨core₁, hperform, hresting, hwritten⟩ := Turn.perform_ok
        (hbrings turn List.mem_cons_self) (horderly turn List.mem_cons_self)
        (hserver turn List.mem_cons_self) (hclient turn List.mem_cons_self) hmax htimeout h
      obtain ⟨core', hrest, hresting', hwritten'⟩ :=
        ih (fun t ht => hbrings t (List.mem_cons_of_mem _ ht))
          (fun t ht => horderly t (List.mem_cons_of_mem _ ht))
          (fun t ht => hserver t (List.mem_cons_of_mem _ ht))
          (fun t ht => hclient t (List.mem_cons_of_mem _ ht)) hresting
      refine ⟨core', ?_, hresting', ?_⟩
      · rw [converse, Action.bind_ok hperform, Action.bind_ok hrest]
        rfl
      · rw [hwritten', hwritten, List.flatMap_cons, List.flatten_append, List.append_assoc]

end Turns

/-! ### The greeting -/

section Welcomed

variable {S : Type} {options : ClientOptions} {sensitivity : Sensitivity} {core : SessionCore}

/-- Without a handler every inquiry is cancelled. -/
def Act.Automatic : Act → Prop
  | .ask _ _ answer => answer = ⟨[], true⟩
  | _ => True

theorem Act.Valid.informs {limit : ℕ} {keyword : String} {args : Bytes}
    (h : (Act.send (.status keyword args)).Valid limit) :
    Informs (responseBody (.status keyword args) ++ [lf]) := by
  have hencodable : Encodable (.status keyword args) := h
  have hwired := hencodable.wired (by simp [ServerLine.kind])
  exact ⟨_, ⟨hwired.fits, hwired.parses⟩, Or.inl rfl⟩

/-- A greeting is a preamble with at most one inquiry in it, and nothing but its
`CAN` is heard. -/
theorem Engages.preamble {stage stage' : Stage} {program : Program S .context} {acts : List Act}
    {result : Except HandlerError Unit} {state : S} {limit : ℕ}
    (h : Engages stage program acts stage' result state) (hgreeting : stage.greeting = true)
    (hvalid : ∀ act ∈ acts, act.Valid limit) (hautomatic : ∀ act ∈ acts, act.Automatic) :
    ∃ cancelled, (stage.cancelled = true → cancelled = false) ∧
      Preamble cancelled (acts.flatMap Act.lines) ∧
      (acts.flatMap Act.replies).flatten = if cancelled then canLine else [] := by
  induction h with
  | done stage result state => exact ⟨false, fun _ => rfl, by simp [Preamble], rfl⟩
  | data _ _ => exact absurd hgreeting (by simp)
  | @status keyword args _ acts _ _ _ _ _ ih =>
      obtain ⟨cancelled, honce, hpreamble, hreplies⟩ := ih hgreeting
        (fun a ha => hvalid a (List.mem_cons_of_mem _ ha))
        fun a ha => hautomatic a (List.mem_cons_of_mem _ ha)
      have hfirst := (hvalid _ List.mem_cons_self).informs
      have hlines : (Act.send (.status keyword args) :: acts).flatMap Act.lines =
          (responseBody (.status keyword args) ++ [lf]) :: acts.flatMap Act.lines := rfl
      refine ⟨cancelled, honce, ?_, hreplies⟩
      rw [hlines]
      cases cancelled with
      | false =>
          intro seg hseg
          rcases List.mem_cons.mp hseg with rfl | hseg
          · exact hfirst
          · exact hpreamble seg hseg
      | true =>
          obtain ⟨before, asked, after, hword, hbefore, hasked, hafter⟩ := hpreamble
          refine ⟨(responseBody (.status keyword args) ++ [lf]) :: before, asked, after, ?_, ?_,
            hasked, hafter⟩
          · rw [hword]
            rfl
          · intro seg hseg
            rcases List.mem_cons.mp hseg with rfl | hseg
            · exact hfirst
            · exact hbefore seg hseg
  | @ask keyword args _ _ _ _ answer acts _ _ _ _ _ _ ih =>
      obtain rfl : answer = ⟨[], true⟩ := hautomatic _ List.mem_cons_self
      obtain ⟨hinquire, -⟩ := hvalid _ List.mem_cons_self
      have hwired := hinquire.wired (by simp [ServerLine.kind])
      obtain ⟨cancelled, honce, hpreamble, hreplies⟩ := ih hgreeting
        (fun a ha => hvalid a (List.mem_cons_of_mem _ ha))
        fun a ha => hautomatic a (List.mem_cons_of_mem _ ha)
      obtain rfl := honce rfl
      refine ⟨true, by simp, ⟨[], responseBody (.inquire keyword args) ++ [lf],
        acts.flatMap Act.lines, rfl, by simp, ⟨keyword, args, hwired.fits, hwired.parses⟩,
        hpreamble⟩, ?_⟩
      rw [List.flatMap_cons, List.flatten_append, hreplies]
      rfl

/-! Nothing in the greeting touches the settings. -/

theorem ample_finish (inquiry : Inquiry) (cancelled : Bool) :
    Action.Keeps (Ample options sensitivity) (Inquiry.finish cancelled inquiry) := by
  have hcomplete : Action.Keeps (fun s : SessionCore × Inquiry => Ample options sensitivity s.1)
      (Inquiry.complete cancelled) := by
    have hcheck : Action.Keeps (Ample options sensitivity) Inquiry.check :=
      (keeps_check_of ample_invalidate).bind fun _ => keeps_requireState_of ample_invalidate _
    have hover : Action.Keeps (Ample options sensitivity) (Inquiry.finishInquiry cancelled) :=
      fun _ h => h.same rfl rfl rfl rfl rfl
    refine (keeps_onCore hcheck).bind ?_
    intro _
    refine (keeps_onCore (ample_writeAt _)).bind ?_
    intro _
    refine (keeps_onCore hover).bind ?_
    intro _
    exact Action.keeps_modify fun s h => h
  intro core h
  have hkept := hcomplete (core, inquiry) h
  show Ample options sensitivity (Inquiry.drop (Inquiry.complete cancelled (core, inquiry)).2)
  unfold Inquiry.drop
  split
  · exact hkept
  · exact ample_invalidate _ hkept

theorem keeps_onClient {I : SessionCore → Prop} {α : Type}
    {x : Action (SessionCore × Completion) ClientError α}
    (h : Action.Keeps (fun s : SessionCore × Completion => I s.1) x) :
    Action.Keeps (fun handshake => ∀ core, handshake.client = some core → I core)
      (Handshake.onClient x) := by
  rintro ⟨client, completion, error⟩ hclient
  cases client with
  | none => exact hclient
  | some core =>
      rintro core' hcore'
      obtain rfl := Option.some.inj hcore'
      exact h (core, completion) (hclient core rfl)

theorem ample_driven {fuel : ℕ} {handshake handshake' : Handshake}
    (h : ∀ core, handshake.client = some core → Ample options sensitivity core)
    (hrun : driven fuel handshake = (.ok core, handshake')) : Ample options sensitivity core := by
  have htake : Action.Keeps (fun handshake : Handshake => ∀ core, handshake.client = some core →
      Ample options sensitivity core) Handshake.takeError := by
    rintro ⟨client, completion, error⟩ hclient
    cases error <;> exact hclient
  have hinvalidate : ∀ handshake : Handshake, (∀ core, handshake.client = some core →
      Ample options sensitivity core) → ∀ core, handshake.invalidate.client = some core →
      Ample options sensitivity core := by
    rintro ⟨client, completion, error⟩ hclient core hcore
    obtain ⟨core', hcore', rfl⟩ := Option.map_eq_some_iff.mp hcore
    exact ample_invalidate core' (hclient core' hcore')
  induction fuel generalizing handshake with
  | zero => exact absurd (Prod.mk.inj hrun).1 (by simp)
  | succ fuel ih =>
      rw [driven, Handshake.drive] at hrun
      obtain ⟨event, handshake₁, hnext, hrun⟩ := Action.bind_eq_ok.mp hrun
      have hkept := ((Action.Keeps.onError hinvalidate htake).bind fun _ =>
        keeps_onClient ample_next) handshake h
      rw [Handshake.next] at hnext
      rw [hnext] at hkept
      rcases event with _ | event
      · -- the client is handed over as it stands
        rw [Handshake.finish] at hrun
        obtain ⟨_, handshake₂, htaken, hrun⟩ := Action.bind_eq_ok.mp hrun
        have hkept₂ := htake handshake₁ hkept
        rw [htaken] at hkept₂
        obtain ⟨_, handshake₃, hchecked, hrun⟩ := Action.bind_eq_ok.mp hrun
        have hkept₃ := keeps_onClient (keeps_onCore (keeps_check_of ample_invalidate)) handshake₂
          hkept₂
        rw [hchecked] at hkept₃
        rw [Action.bind_ok (Action.get_apply _)] at hrun
        cases hcompletion : handshake₃.completion with
        | success =>
            rw [hcompletion] at hrun
            exact hkept₃ core (by
              have hclient := (Prod.mk.inj hrun).1
              cases hsome : handshake₃.client with
              | none => exact absurd (hsome ▸ hclient) (by simp)
              | some core' =>
                  rw [hsome] at hclient
                  exact congrArg some (Outcome.ok.inj hclient))
        | pending =>
            rw [hcompletion] at hrun
            exact absurd (Prod.mk.inj hrun).1 (by simp)
        | remote code =>
            rw [hcompletion] at hrun
            exact absurd (Prod.mk.inj hrun).1 (by simp)
      · cases event with
        | inquire inquiry =>
            have hanswer : Action.Keeps (Ample options sensitivity)
                (@Handshake.answer Unit none () inquiry) :=
              (ample_finish inquiry true).bind fun _ => Action.keeps_pure _
            obtain ⟨_, handshake₂, hanswered, hrun⟩ := Action.bind_eq_ok.mp hrun
            have hkept₂ := keeps_onClient (keeps_onCore hanswer) handshake₁ hkept
            rw [hanswered] at hkept₂
            exact ih hkept₂ hrun
        | _ => exact ih hkept hrun

theorem Exchanged.written {cancelled : Bool} {word : List Bytes} {final : Bytes} {ch : Channel}
    (h : Exchanged cancelled word final ch) :
    written ch.trace = if cancelled then canLine else [] := by
  cases cancelled with
  | false =>
      obtain ⟨rs, htrace, -⟩ := h
      rw [htrace, written_reads]
      rfl
  | true =>
      obtain ⟨_, _, _, rs, rs', _, -, -, htrace, -, -⟩ := h
      have hcons : Io.wrote canLine :: rs'.map .read = [.wrote canLine] ++ rs'.map .read := rfl
      rw [htrace, hcons, written_append, written_append, written_reads, written_reads,
        written_wrote]
      rfl

/-- The client comes out of the greeting at rest. -/
theorem greeted {stage : Stage} {program : Program S .context} {hello : List Act}
    {result : Except HandlerError Unit} {state : S} {limit : ℕ} {text : Bytes} {chunks : List Chunk}
    (hoptions : options.Valid)
    (hgreets : Engages ⟨true, false⟩ program hello stage result state)
    (hvalid : ∀ act ∈ hello, act.Valid limit) (hautomatic : ∀ act ∈ hello, act.Automatic)
    (htext : Encodable (.ok text)) (hinput : bytesOf chunks = greetingOf hello text) :
    ∃ core, (Client.fromStream ⟨chunks.map .data, []⟩ [] [] [] options).1 = .ok core ∧
      Resting options core ∧ written core.channel.trace = (hello.flatMap Act.replies).flatten := by
  obtain ⟨cancelled, -, hpreamble, hreplies⟩ := hgreets.preamble rfl hvalid hautomatic
  have hwired := htext.wired (by simp [ServerLine.kind])
  have hsegs : ∀ seg ∈ hello.flatMap Act.lines ++ [responseBody (.ok text) ++ [lf]],
      Terminated lf seg := by
    intro seg hseg
    rcases List.mem_append.mp hseg with hseg | hseg
    · obtain ⟨act, hact, hseg⟩ := List.mem_flatMap.mp hseg
      exact (hvalid act hact).terminated seg hseg
    · obtain rfl := List.mem_singleton.mp hseg
      exact hwired.terminated
  have hflatten : bytesOf chunks =
      (hello.flatMap Act.lines ++ [responseBody (.ok text) ++ [lf]]).flatten := by
    rw [hinput, greetingOf, List.flatten_append]
    simp
  have hgreeting := greeting_session chunks options
  change Greeting _ _ (bytesOf chunks) at hgreeting
  rw [hflatten, ← List.append_nil (List.flatten _)] at hgreeting
  have hfuel : (hello.flatMap Act.lines ++ [responseBody (.ok text) ++ [lf]]).length + 1 <
      (Channel.new ⟨chunks.map .data, []⟩ []).supply + 2 := by
    have hlines := length_le_flatten hsegs
    have hsupply := (ideal_new chunks).supply
    change _ = (bytesOf chunks).length at hsupply
    rw [hsupply, hflatten]
    omega
  obtain ⟨core₁, fuel, hreach, hgreeting₁, hterm, hexchanged⟩ :=
    hgreeting.reach rfl rfl hsegs hpreamble hfuel
  obtain ⟨core, handshake, hdone, husable, hideal, hadvances⟩ :=
    hgreeting₁.welcomes hterm ⟨text, hwired.fits, hwired.parses⟩ fuel
  have hrun := hreach.trans hdone
  have hample : Ample options .public_ core := by
    refine ample_driven ?_ hrun
    rintro core' hcore'
    obtain rfl := Option.some.inj hcore'
    exact ⟨rfl, rfl, rfl, rfl, rfl⟩
  refine ⟨core, ?_, ⟨hideal, husable, _, hample⟩, ?_⟩
  · rw [driven, ← handshake_begun hoptions] at hrun
    rw [Client.fromStream, hrun]
  · rw [hadvances.written, hexchanged.written, hreplies]

end Welcomed

/-! ## §7  Both ends -/

theorem Act.Valid.mono {limit limit' : ℕ} {act : Act} (h : act.Valid limit) (hle : limit ≤ limit') :
    act.Valid limit' := by
  cases act with
  | send sending => exact h
  | note text => exact h
  | ask keyword args answer => exact ⟨h.1, Nat.le_trans h.2 hle⟩

theorem CommandRound.Valid.mono {limit limit' : ℕ} {round : CommandRound} (h : round.Valid limit)
    (hle : limit ≤ limit') : round.Valid limit' :=
  ⟨h.name, h.fits, fun act hact => (h.acts act hact).mono hle, h.final⟩

section Both

variable {S : Type} {service : Service S} {options : ClientOptions} {hello : List Act}
  {text : Bytes} {turns : List Turn} {state state' : S} {greeting requests : List Chunk}

/-- **Conversation fidelity.** The application of a server goes through a greeting
and any number of commands, and in them through sends, inquiries and whatever it
decides by their answers. The input of each side is what the other one writes, cut
into reads anywhere; the client has the events of a turn before it goes on. Then the
server runs to its end and leaves the state of its application. The client is
greeted and is told exactly what was done, in its order, with each final response,
and it is usable after the last turn. Each side has written exactly what the other
was sent. -/
theorem conversation_fidelity (hserver : service.options.Valid) (hclient : options.Valid)
    (hmax : options.maxInquiryBytes ≤ usizeMax)
    (hhosts : Hosts service state hello text (turns.map Turn.round) state')
    (hhello : ∀ act ∈ hello, act.Valid service.options.maxInquiryBytes ∧ act.Automatic)
    (htext : Encodable (.ok text))
    (hvalid : ∀ turn ∈ turns,
      turn.round.Valid (min service.options.maxInquiryBytes options.maxInquiryBytes))
    (hbrings : ∀ turn ∈ turns, turn.Brings) (hgreeting : bytesOf greeting = greetingOf hello text)
    (hrequests : bytesOf requests = requestsOf hello (turns.map Turn.round)) :
    (∃ session, Session.run service (turns.length + 1)
        (Session.new ⟨requests.map .data, []⟩ [] [] state) = (.ok (), session) ∧
      session.state = state' ∧ written session.link.channel.trace =
        bytesOf greeting ++ (turns.map Turn.arrived).flatten) ∧
    ∃ core core', (Client.fromStream ⟨greeting.map .data, []⟩ [] [] [] options).1 = .ok core ∧
      converse turns core = (.ok (turns.map Turn.events), core') ∧ core'.isUsable = true ∧
      written core'.channel.trace = bytesOf requests := by
  have hresponses : (turns.map Turn.arrived).flatten =
      ((turns.map Turn.round).flatMap CommandRound.response).flatten := by
    rw [List.flatMap_def, List.map_map, List.flatten_flatten, List.map_map]
    exact congrArg List.flatten (List.map_congr_left fun turn hturn => (hbrings turn hturn).arrived)
  constructor
  · have hrounds : ∀ round ∈ turns.map Turn.round,
        round.Valid service.options.maxInquiryBytes := by
      intro round hround
      obtain ⟨turn, hturn, rfl⟩ := List.mem_map.mp hround
      exact (hvalid turn hturn).mono (Nat.min_le_left _ _)
    obtain ⟨session, hrun, hstate, hwritten⟩ := run_rounds hserver hhosts
      (fun act hact => (hhello act hact).1) htext hrounds hrequests
    rw [List.length_map] at hrun
    refine ⟨session, hrun, hstate, ?_⟩
    rw [hwritten, hgreeting, hresponses]
  · obtain ⟨hgreets, -, hconverses, -⟩ := hhosts
    obtain ⟨core, hgreeted, hresting, hwritten⟩ := greeted hclient hgreets
      (fun act hact => (hhello act hact).1) (fun act hact => (hhello act hact).2) htext hgreeting
    have horderly := hconverses.orderly
    obtain ⟨core', hconverse, hresting', hwritten'⟩ := converse_ok hbrings
      (fun turn hturn => horderly _ (List.mem_map_of_mem hturn)) hvalid
      (fun turn hturn act hact => ((hvalid turn hturn).acts act hact).mono (Nat.min_le_right _ _))
      hmax hclient.2.2.2.1 hresting
    refine ⟨core, core', hgreeted, hconverse, hresting'.usable, ?_⟩
    rw [hwritten', hwritten, hrequests, requestsOf, List.flatMap_map]

end Both

/-- A guard that is asked until its answer has ended, and then finished. -/
def listening {S : Type} (after : Program S .context) : ℕ → Program S .inquiry
  | 0 => .drop after
  | rounds + 1 => .next fun
      | .ok (some _) => listening after rounds
      | _ => .finish fun _ => after

theorem hears_listening {S : Type} (sensitivity : Sensitivity) (cancelled : Bool)
    (after : Program S .context) {parts : List Bytes} {rounds : ℕ} (h : parts.length < rounds) :
    Hears sensitivity cancelled parts (listening after rounds) after := by
  induction parts generalizing rounds with
  | nil =>
      obtain ⟨rounds, rfl⟩ : ∃ n, rounds = n + 1 :=
        ⟨rounds - 1, by rw [List.length_nil] at h; omega⟩
      exact .last .finish
  | cons part parts ih =>
      obtain ⟨rounds, rfl⟩ : ∃ n, rounds = n + 1 :=
        ⟨rounds - 1, by rw [List.length_cons] at h; omega⟩
      rw [List.length_cons] at h
      exact .part (ih (by omega))

/-- A service that asks in its greeting and for a `RESET`. -/
def askingService : Service Bool where
  registry := ⟨[], List.nodup_nil⟩
  hooks := { defaultHooks Bool with
    authenticate := fun context => .inquire "AUTH" [] .public_
      (listening (.done (.ok ()) context.state) 1) fun _ => .done (.ok ()) context.state
    reset := fun context => .inquire "PIN" [] .secret
      (listening (.sendData [10] fun _ => .done (.ok ()) true) 3)
      fun _ => .done (.ok ()) context.state }
  options := ⟨1, 1, 1, 1, 16, 1, 1⟩
  listing := fun _ => []
  listing_names := fun _ => .refl _

def byeCommand : Command := ⟨"BYE", [], rfl, isCleanLine_nil⟩

def pinAnswer : Reply := ⟨[[97, 10], [37]], false⟩

/-- `RESET` with its inquiry, in pieces that end inside a line. -/
def resetTurn : Turn where
  round := ⟨resetCommand, [.ask "PIN" [] pinAnswer, .send (.data [10])], none, []⟩
  sensitivity := .secret
  arrives := [⟨asBytes "INQU", by decide, by decide⟩, ⟨asBytes "IRE PIN\n", by decide, by decide⟩]
  script := [(pinAnswer, [⟨asBytes "D %0A\nO", by decide, by decide⟩,
    ⟨asBytes "K\n", by decide, by decide⟩])]

def byeTurn : Turn where
  round := ⟨byeCommand, [], none, []⟩
  sensitivity := .public_
  arrives := [⟨asBytes "O", by decide, by decide⟩, ⟨asBytes "K\n", by decide, by decide⟩]
  script := []

def askedHello : List Act := [.ask "AUTH" [] ⟨[], true⟩]

def helloChunks : List Chunk := [⟨asBytes "INQUIRE AUTH\nOK\n", by decide, by decide⟩]

def requestChunks : List Chunk :=
  [⟨asBytes "CAN\nRESET\nD a%0A\nD", by decide, by decide⟩,
    ⟨asBytes " %25\nEND\nBYE\n", by decide, by decide⟩]

theorem askingService_hosts :
    Hosts askingService false askedHello [] [resetTurn.round, byeTurn.round] true := by
  have hreset : Handles askingService resetCommand false resetTurn.round.acts (.ok ()) true :=
    .callback rfl (.ask (hears_listening _ _ _ (by decide +kernel)) (.data (.done _ _ _)))
  have hbye : Handles askingService byeCommand true [] (.ok ()) true := .settle rfl
  have hlast : Converses askingService true [byeTurn.round] true :=
    .round hbye ⟨rfl, rfl⟩ (fun _ => rfl) (.nil true)
  exact .hosts (.ask (hears_listening _ _ _ (by decide)) (.done _ _ _)) ⟨rfl, rfl⟩
    (.round hreset ⟨rfl, rfl⟩ (by decide) hlast) rfl

theorem resetTurn_brings : resetTurn.Brings := by
  have hasks : bytesOf resetTurn.arrives = responseBody (.inquire "PIN" []) ++ [lf] := by decide
  have hrest : bytesOf [⟨asBytes "D %0A\nO", by decide, by decide⟩,
      ⟨asBytes "K\n", by decide, by decide⟩] =
        (Sending.data [10]).lines.flatten ++ (responseBody (finalOf none []) ++ [lf]) := by
    decide +kernel
  rw [Turn.Brings, hasks]
  refine .ask ?_
  rw [hrest]
  exact .send .final

theorem conversation_fidelity_asking :
    (∃ session, Session.run askingService 3
        (Session.new ⟨requestChunks.map .data, []⟩ [] [] false) = (.ok (), session) ∧
      session.state = true ∧ written session.link.channel.trace =
        bytesOf helloChunks ++ ([resetTurn, byeTurn].map Turn.arrived).flatten) ∧
    ∃ core core', (Client.fromStream ⟨helloChunks.map .data, []⟩ [] [] [] .default).1 = .ok core ∧
      converse [resetTurn, byeTurn] core =
        (.ok [[.inquire (asked "PIN" []), .data (.secret [10]), .finished none (.secret [])],
          [.finished none (.public_ [])]], core') ∧ core'.isUsable = true ∧
      written core'.channel.trace = bytesOf requestChunks := by
  have hvalid : ∀ turn ∈ [resetTurn, byeTurn], turn.round.Valid
      (min askingService.options.maxInquiryBytes ClientOptions.default.maxInquiryBytes) := by
    intro turn hturn
    rcases List.mem_pair.mp hturn with rfl | rfl
    · refine ⟨by decide, by decide, ?_, encodable_iff.mpr ⟨trivial, by decide, by decide⟩⟩
      intro act hact
      rcases List.mem_pair.mp hact with rfl | rfl
      · exact ⟨encodable_iff.mpr ⟨by constructor <;> decide, by decide, by decide⟩, by decide⟩
      · trivial
    · exact ⟨by decide, by decide, by simp [byeTurn],
        encodable_iff.mpr ⟨trivial, by decide, by decide⟩⟩
  have hbrings : ∀ turn ∈ [resetTurn, byeTurn], turn.Brings := by
    intro turn hturn
    rcases List.mem_pair.mp hturn with rfl | rfl
    · exact resetTurn_brings
    · exact .final
  have hhello : ∀ act ∈ askedHello,
      act.Valid askingService.options.maxInquiryBytes ∧ act.Automatic := by
    intro act hact
    obtain rfl := List.mem_singleton.mp hact
    exact ⟨⟨encodable_iff.mpr ⟨by constructor <;> decide, by decide, by decide⟩, by decide⟩, rfl⟩
  have hevents : [resetTurn, byeTurn].map Turn.events =
      [[.inquire (asked "PIN" []), .data (.secret [10]), .finished none (.secret [])],
        [.finished none (.public_ [])]] := by decide +kernel
  have hserver : askingService.options.Valid :=
    ⟨by decide, by decide, by decide, by decide, by decide, by decide, by decide⟩
  have hgreeting : bytesOf helloChunks = greetingOf askedHello [] := by decide +kernel
  have hrequests : bytesOf requestChunks =
      requestsOf askedHello [resetTurn.round, byeTurn.round] := by decide +kernel
  rw [← hevents]
  obtain ⟨⟨session, hrun, hstate, hwritten⟩, hconverse⟩ := conversation_fidelity hserver
    ClientOptions.default_valid (by decide) askingService_hosts hhello
    (encodable_iff.mpr ⟨trivial, by decide, by decide⟩) hvalid hbrings hgreeting hrequests
  exact ⟨⟨session, hrun, hstate, hwritten⟩, hconverse⟩

end Assuan
