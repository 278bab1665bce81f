import Assuan.Client.Spec
import Assuan.Transport.Ideal

/-!
# The events of a transaction

Over a faultless stream `next` turns one response line into one event. The line
is parsed into positions, a data line is then decoded inside the receive buffer,
and the event is cut out of the buffer by the positions; here these steps are
put together, line by line.
-/

namespace Assuan

open Channel LineBuffer SessionCore

theorem validateWireLine_dataLine {data piece : Bytes} (h : piece ∈ pieces data) :
    validateWireLine (dataLine piece) = .ok () := by
  have hlen := dataLine_length h
  rw [dataLine, List.length_append, List.length_singleton] at hlen
  exact validateWireLine_clean (dataLine_body_clean piece) hlen

/-! ## §1  One line -/

/-- A client in the middle of a command, with `input` left to read. -/
structure Attending (core : SessionCore) (input : Bytes) : Prop where
  ideal : Ideal core.channel input
  certain : core.ioUncertain = false
  state : core.machine.state = .command

section Lines

variable {core core' : SessionCore} {input body rest : Bytes} {received : Received}

theorem Attending.not_poisoned (h : Attending core input) : ¬ core.Poisoned :=
  live_of_certain h.certain (by simp [h.state])

theorem readBody_ok {line : Bytes} {ch : Channel}
    (hline : Channel.readLine core.channel = (.ok line, ch))
    (hclass : classify line { core with channel := ch, ioUncertain := true } =
      (.ok received, core')) :
    readBody { core with ioUncertain := true } = (.ok received, core') := by
  have hread : onChannel Channel.readLine { core with ioUncertain := true } =
      (.ok line, { core with channel := ch, ioUncertain := true }) :=
    onChannel_apply { core with ioUncertain := true } hline
  rw [readBody, Action.bind_ok hread, hclass]

/-- What the machine and the parser agree on is classified. -/
theorem classify_ok {parsed : ServerLine} {machine : ClientMachine} {core₁ : SessionCore}
    (hparse : parseServerLine body = .ok parsed)
    (hdecode : decodePayload body (locate body parsed) core = (.ok received, core₁))
    (hreceive : core₁.machine.receive received.kind = (.ok (), machine)) :
    classify body core = (.ok received, { core₁ with machine := machine }) := by
  have hevent : receiveEvent received core₁ = (.ok (), { core₁ with machine := machine }) := by
    rw [receiveEvent, hreceive]
  rw [classify, hparse, Outcome.mapErr_ok, Action.lift_ok_bind, Action.bind_ok hdecode,
    Action.bind_ok hevent]
  rfl

/-- Any line but data is left as it is. -/
theorem read_plain {parsed : ServerLine} {machine : ClientMachine}
    (hideal : Ideal core.channel (body ++ [lf] ++ rest)) (hlive : ¬ core.Poisoned)
    (hclean : isCleanLine body = true) (hlen : body.length + 1 ≤ maxLineBytes)
    (hparse : parseServerLine body = .ok parsed) (hdata : parsed.kind ≠ .data)
    (hreceive : core.machine.receive parsed.kind = (.ok (), machine)) :
    ∃ ch, SessionCore.read core = (.ok (locate body parsed), logFinal (locate body parsed)
        { core with channel := ch, machine := machine, ioUncertain := false }) ∧
      Ideal ch rest ∧ ch.receivedLine = some body := by
  obtain ⟨ch, hline, hrest, hholds, -⟩ := hideal.readLine hclean hlen
  have hdecode : decodePayload body (locate body parsed)
      { core with channel := ch, ioUncertain := true } =
        (.ok (locate body parsed), { core with channel := ch, ioUncertain := true }) := by
    rw [decodePayload, if_neg (by rw [locate_kind]; exact hdata)]
  have hclass := classify_ok hparse hdecode (by rw [locate_kind]; exact hreceive)
  exact ⟨ch, read_ok hlive (readBody_ok hline hclass), hrest, hholds.receivedLine⟩

/-- The positions of a data line before it is decoded. -/
theorem locate_dataLine (piece : Bytes) :
    locate (asBytes "D " ++ escapeBytes piece) (.data (escapeBytes piece)) =
      ⟨.data, none, ⟨2, (asBytes "D " ++ escapeBytes piece).length⟩, ⟨0, 0⟩⟩ := by
  have hstart : (asBytes "D " ++ escapeBytes piece).length - (escapeBytes piece).length = 2 := by
    rw [List.length_append, Nat.add_sub_cancel]
    rfl
  simp only [locate, hstart]

/-- A data line is decoded in place, and the positions follow. -/
theorem read_data {piece : Bytes} {machine : ClientMachine}
    (hideal : Ideal core.channel (dataLine piece ++ rest)) (hlive : ¬ core.Poisoned)
    (hlen : (dataLine piece).length ≤ maxLineBytes)
    (hreceive : core.machine.receive .data = (.ok (), machine)) :
    ∃ ch tail, SessionCore.read core = (.ok ⟨.data, none, ⟨2, 2 + piece.length⟩, ⟨0, 0⟩⟩,
        { core with channel := ch, machine := machine, ioUncertain := false }) ∧
      Ideal ch rest ∧ ch.receivedLine = some (asBytes "D " ++ (piece ++ tail)) := by
  have hclean := dataLine_body_clean piece
  have hlen' : (asBytes "D " ++ escapeBytes piece).length + 1 ≤ maxLineBytes := by
    rwa [dataLine, List.length_append, List.length_singleton] at hlen
  have hparse : parseServerLine (asBytes "D " ++ escapeBytes piece) =
      .ok (.data (escapeBytes piece)) := by
    rw [(parseServerLine_tagged _).2.2.2.1, validateLine_eq_ok.mpr hclean, Outcome.ok_bind]
  obtain ⟨ch, hline, hrest, hholds, -⟩ := hideal.readLine hclean hlen'
  have hdrop : (asBytes "D " ++ escapeBytes piece).drop 2 = escapeBytes piece := rfl
  have htake : (asBytes "D " ++ escapeBytes piece).take 2 = asBytes "D " := rfl
  have hdecoded := decodeRef_escapeBytes piece
  have hdecode := @decodePayload_data (asBytes "D " ++ escapeBytes piece)
    { core with channel := ch, ioUncertain := true } (locate (asBytes "D " ++ escapeBytes piece)
      (.data (escapeBytes piece))) rfl
  rw [locate_dataLine] at hdecode
  simp only [hdrop, htake, hdecoded] at hdecode
  have hclass := classify_ok hparse (by rw [locate_dataLine]; exact hdecode) hreceive
  refine ⟨_, _, read_ok hlive (readBody_ok hline hclass), hrest.editLine _, hholds.editLine ?_⟩
  have hle := decodeRef_length hdecoded
  simp only [List.length_append, List.length_drop]
  omega

/-! ### Writing -/

theorem writeAt_ideal {line : Bytes} (hideal : Ideal core.channel input) (hlive : ¬ core.Poisoned)
    (hvalid : validateWireLine line = .ok ()) :
    ∃ ch, SessionCore.writeAt line core = (.ok (), { core with channel := ch }) ∧ Ideal ch input ∧
      ch.trace = core.channel.trace ++ [.wrote line] ∧
      ch.unreadBytes = core.channel.unreadBytes := by
  obtain ⟨ch, hwrite, hideal', hsent⟩ := hideal.writeLine hvalid
  exact ⟨ch, writeAt_ok hlive hwrite, hideal', hsent⟩

/-- `finish` or `cancel`: the terminator is written, and the inquiry is over. -/
theorem finishInquiry_ideal {inquiry : Inquiry} (hideal : Ideal core.channel input)
    (hlive : ¬ core.Poisoned) (hstate : core.machine.state = .inquiry) (cancelled : Bool) :
    ∃ ch, Inquiry.finish cancelled inquiry core = (.ok (), { core with
        channel := ch
        machine := { core.machine with
          state := if cancelled then .awaitFinal else core.machine.inquiryOrigin } }) ∧
      Ideal ch input ∧
      ch.trace = core.channel.trace ++ [.wrote (Inquiry.terminator cancelled)] ∧
      ch.unreadBytes = core.channel.unreadBytes := by
  have hvalid : validateWireLine (Inquiry.terminator cancelled) = .ok () := by
    cases cancelled <;> decide
  obtain ⟨ch, hwrite, hideal', hsent⟩ := writeAt_ideal hideal hlive hvalid
  have hcheck : Inquiry.check core = (.ok (), core) := by
    rw [Inquiry.check, Action.bind_ok (check_ok hlive)]
    exact requireState_ok hstate
  have hmachine : core.machine.finishInquiry cancelled = (.ok (), { core.machine with
      state := if cancelled then .awaitFinal else core.machine.inquiryOrigin }) := by
    simp [ClientMachine.finishInquiry, hstate]
  obtain ⟨done, hdone⟩ : ∃ done : SessionCore, done = { core with
      channel := ch
      machine := { core.machine with
        state := if cancelled then .awaitFinal else core.machine.inquiryOrigin } } := ⟨_, rfl⟩
  have hfinish : Inquiry.finishInquiry cancelled { core with channel := ch } = (.ok (), done) := by
    rw [hdone, Inquiry.finishInquiry, hmachine]
    rfl
  have hcheck' : onCore Inquiry.check (core, inquiry) = (.ok (), (core, inquiry)) :=
    Action.zoom_apply hcheck
  have hwrite' : onCore (SessionCore.writeAt (Inquiry.terminator cancelled)) (core, inquiry) =
      (.ok (), ({ core with channel := ch }, inquiry)) := Action.zoom_apply hwrite
  have hfinish' : onCore (Inquiry.finishInquiry cancelled) ({ core with channel := ch }, inquiry) =
      (.ok (), (done, inquiry)) := Action.zoom_apply hfinish
  have hcomplete : Inquiry.complete cancelled (core, inquiry) =
      (.ok (), (done, { inquiry with completed := true })) := by
    rw [Inquiry.complete, Action.bind_ok hcheck', Action.bind_ok hwrite', Action.bind_ok hfinish']
    rfl
  refine ⟨ch, ?_, hideal', hsent⟩
  rw [← hdone, Inquiry.finish, hcomplete]
  rfl

/-! ## §2  One event -/

/-- The encoder accepts the line. -/
def Encodable (line : ServerLine) : Prop := ∃ bytes, encoded (encodeResponse line) = .ok bytes

theorem Encodable.cases {line : ServerLine} (h : Encodable line) :
    encoded (encodeResponse line) = .ok (responseBody line ++ [lf]) ∧ FieldsValid line ∧
      isCleanLine (responseBody line) = true ∧ (responseBody line).length + 1 ≤ maxLineBytes := by
  rcases encoded_cases (encodeResponse_writesLine line (Buffer.zero _)) with
    hok | ⟨⟨e, herr⟩, -⟩
  · exact hok
  · obtain ⟨bytes, hbytes⟩ := h
    rw [herr] at hbytes
    exact absurd hbytes (by simp)

/-- A text at the end of a line is found by its length. -/
theorem slice_text (before text : Bytes) :
    (⟨(before ++ text).length - text.length, (before ++ text).length⟩ : Span).slice
      (before ++ text) = some text := by
  rw [Span.slice_suffix, List.length_append, Nat.add_sub_cancel, List.drop_left]

/-- A field that may be missing is the end of its line either way. -/
theorem slice_optionalField (before text : Bytes) :
    (⟨(before ++ optionalField text).length - text.length,
      (before ++ optionalField text).length⟩ : Span).slice (before ++ optionalField text) =
        some text := by
  unfold optionalField
  by_cases h : text = []
  · rw [if_pos h, h]
    rw [List.append_nil]
    simpa using slice_text before []
  · rw [if_neg h]
    have hassoc : before ++ space :: text = (before ++ [space]) ++ text := by simp
    rw [hassoc]
    exact slice_text (before ++ [space]) text

/-- `next`, from the line that was read to the event. -/
theorem next_of_read {core₁ core₂ : SessionCore} {event : Event} (hlive : ¬ core.Poisoned)
    (hstate : core.machine.state ≠ .inquiry)
    (hread : Transaction.readEvent (core.channel.supply + 1) core = (.ok received, core₁))
    (hmake : Transaction.makeEvent received core₁ = (.ok event, core₂)) :
    Transaction.next (core, .pending) =
      (.ok (some event), (core₂, Transaction.completionOf received .pending)) := by
  have hrefuse : Transaction.refuseInquiry core = (.ok (), core) := if_neg hstate
  have hcheck' : onCore SessionCore.check (core, Completion.pending) =
      (.ok (), (core, .pending)) := Action.zoom_apply (check_ok hlive)
  have hrefuse' : onCore Transaction.refuseInquiry (core, Completion.pending) =
      (.ok (), (core, .pending)) := Action.zoom_apply hrefuse
  have hread' : onCore (Transaction.readEvent (core.channel.supply + 1)) (core, Completion.pending) =
      (.ok received, (core₁, .pending)) := Action.zoom_apply hread
  have hmake' : onCore (Transaction.makeEvent received)
      (core₁, Transaction.completionOf received .pending) =
        (.ok event, (core₂, Transaction.completionOf received .pending)) := Action.zoom_apply hmake
  rw [Transaction.next, Action.bind_ok hcheck', Action.bind_ok hrefuse',
    Action.bind_ok (Action.get_apply _), if_neg (by simp), Transaction.readNext,
    Action.bind_ok (Action.get_apply _), Action.bind_ok hread',
    Action.bind_ok (Action.modify_apply _ _), Action.bind_ok hmake']
  rfl

theorem next_ok {line payload : Bytes} {event : Event} (hlive : ¬ core.Poisoned)
    (hstate : core.machine.state = .command)
    (hread : SessionCore.read core = (.ok received, core'))
    (hempty : received.kind ≠ .empty) (hinquire : received.kind ≠ .inquire)
    (hline : core'.channel.receivedLine = some line)
    (hpayload : received.payload.slice line = some payload)
    (hevent : Transaction.eventOf received line (PayloadRef.new payload core'.sensitivity) =
      .ok event) :
    Transaction.next (core, .pending) =
      (.ok (some event), (core', Transaction.completionOf received .pending)) := by
  have hloop : Transaction.readEvent (core.channel.supply + 1) core = (.ok received, core') := by
    rw [Transaction.readEvent, Action.bind_ok hread, if_pos hempty]
    rfl
  have hplain : Transaction.makeEvent received core' = (.ok event, core') := by
    rw [Transaction.makeEvent, if_neg hinquire, Transaction.plainEvent,
      Action.bind_ok (Action.get_apply core'), hline, Outcome.okOr_some, Action.lift_ok_bind,
      hpayload, Outcome.index_some, Action.lift_ok_bind, hevent]
    rfl
  exact next_of_read hlive (by rw [hstate]; simp) hloop hplain

theorem Attending.next_data {piece : Bytes} (h : Attending core (dataLine piece ++ rest))
    (hlen : (dataLine piece).length ≤ maxLineBytes) :
    ∃ core', Transaction.next (core, .pending) =
        (.ok (some (.data (PayloadRef.new piece core.sensitivity))), (core', .pending)) ∧
      Attending core' rest ∧ core'.sensitivity = core.sensitivity := by
  have hreceive : core.machine.receive .data = (.ok (), core.machine) := by
    simp [ClientMachine.receive, h.state]
  obtain ⟨ch, tail, hread, hideal, hline⟩ := read_data h.ideal h.not_poisoned hlen hreceive
  have hslice : (⟨2, 2 + piece.length⟩ : Span).slice (asBytes "D " ++ (piece ++ tail)) =
      some piece := by
    rw [← List.append_assoc]
    exact Span.slice_infix (asBytes "D ") piece tail
  exact ⟨_, next_ok h.not_poisoned h.state hread (by simp) (by simp) hline hslice rfl,
    ⟨hideal, rfl, h.state⟩, rfl⟩

theorem Attending.next_status {keyword : String} {args : Bytes}
    (h : Attending core (responseBody (.status keyword args) ++ [lf] ++ rest))
    (hencodable : Encodable (.status keyword args)) :
    ∃ core', Transaction.next (core, .pending) =
        (.ok (some (.status keyword (PayloadRef.new args core.sensitivity))), (core', .pending)) ∧
      Attending core' rest ∧ core'.sensitivity = core.sensitivity := by
  obtain ⟨-, hvalid, hclean, hlen⟩ := hencodable.cases
  have hreceive : core.machine.receive .status = (.ok (), core.machine) := by
    simp [ClientMachine.receive, h.state]
  obtain ⟨ch, hread, hideal, hline⟩ := read_plain h.ideal h.not_poisoned hclean hlen
    (parseServerLine_responseBody hvalid hclean) (by simp [ServerLine.kind]) hreceive
  refine ⟨_, next_ok h.not_poisoned h.state hread (by simp [locate]) (by simp [locate]) hline
    (slice_optionalField _ args) ?_, ⟨hideal, rfl, h.state⟩, rfl⟩
  have hkeyword : (locate (responseBody (.status keyword args)) (.status keyword args)).keyword.slice
      (responseBody (.status keyword args)) = some (asBytes keyword) :=
    Span.slice_infix (asBytes "S ") (asBytes keyword) (optionalField args)
  rw [Transaction.eventOf]
  simp only [hkeyword, Outcome.index_some, Outcome.ok_bind, fromUtf8_asBytes, Outcome.okOr_some]
  rfl

/-- The final response with a code, or without one. -/
def finalOf : Option UInt32 → Bytes → ServerLine
  | none, text => .ok text
  | some code, text => .err code text

/-- How the transaction remembers it. -/
def completed : Option UInt32 → Completion
  | none => .success
  | some code => .remote code

theorem Attending.next_final {code : Option UInt32} {text : Bytes}
    (h : Attending core (responseBody (finalOf code text) ++ [lf] ++ rest))
    (hencodable : Encodable (finalOf code text)) :
    ∃ core', Transaction.next (core, .pending) =
        (.ok (some (.finished code (PayloadRef.new text core.sensitivity))),
          (core', completed code)) ∧
      Ideal core'.channel rest ∧ core'.isUsable = true := by
  obtain ⟨-, hvalid, hclean, hlen⟩ := hencodable.cases
  have hreceive : core.machine.receive (finalOf code text).kind =
      (.ok (), { core.machine with state := .ready }) := by
    cases code <;> simp [ClientMachine.receive, h.state, finalOf, ServerLine.kind]
  obtain ⟨ch, hread, hideal, hline⟩ := read_plain h.ideal h.not_poisoned hclean hlen
    (parseServerLine_responseBody hvalid hclean)
    (by cases code <;> simp [finalOf, ServerLine.kind]) hreceive
  rw [logFinal_eq] at hread
  cases code with
  | none =>
      exact ⟨_, next_ok h.not_poisoned h.state hread (by simp [locate, finalOf])
        (by simp [locate, finalOf]) hline (slice_optionalField _ text) rfl, hideal, rfl⟩
  | some code =>
      exact ⟨_, next_ok h.not_poisoned h.state hread (by simp [locate, finalOf])
        (by simp [locate, finalOf]) hline (slice_optionalField _ text) rfl, hideal, rfl⟩

/-- After the final response nothing is read any more. -/
theorem next_none {completion : Completion} (husable : core.isUsable = true)
    (hdone : completion ≠ .pending) :
    Transaction.next (core, completion) = (.ok none, (core, completion)) := by
  have hlive := live_of_usable husable
  simp only [isUsable, Bool.decide_and, Bool.and_eq_true, decide_eq_true_eq] at husable
  have hcheck : onCore SessionCore.check (core, completion) = (.ok (), (core, completion)) :=
    Action.zoom_apply (check_ok hlive)
  have hrefuse : onCore Transaction.refuseInquiry (core, completion) =
      (.ok (), (core, completion)) := by
    apply Action.zoom_apply
    rw [Transaction.refuseInquiry, if_neg (by rw [husable.2]; simp)]
  rw [Transaction.next, Action.bind_ok hcheck, Action.bind_ok hrefuse,
    Action.bind_ok (Action.get_apply _), if_pos hdone]
  rfl

end Lines

end Assuan
