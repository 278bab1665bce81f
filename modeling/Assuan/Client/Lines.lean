import Assuan.Client.Session
import Assuan.Transport.ChannelSpec

/-!
# What a response line says

The client finds positions in a line, decodes data inside the receive buffer and
later cuts the parts of an event out of the buffer. `told` names the event by the
parsed line alone; the positions only have to agree with it, which is `Presents`.
-/

namespace Assuan

open Channel LineBuffer SessionCore

/-! ## §1  Positions in a line -/

namespace Span

theorem slice_suffix (line : Bytes) (n : ℕ) :
    (⟨line.length - n, line.length⟩ : Span).slice line = some (line.drop (line.length - n)) := by
  rw [slice, if_pos ⟨Nat.sub_le _ _, Nat.le_refl _⟩]
  simp only [List.take_length]

/-- A slice that starts after `tag` and has the length of what follows it. -/
theorem slice_infix (tag word rest : Bytes) :
    (⟨tag.length, tag.length + word.length⟩ : Span).slice (tag ++ word ++ rest) = some word := by
  have hlen : (tag ++ word).length = tag.length + word.length := List.length_append
  have hfits : tag.length + word.length ≤ (tag ++ word ++ rest).length := by simp
  rw [slice, if_pos ⟨Nat.le_add_right _ _, hfits⟩]
  simp only [← hlen, List.take_left, List.drop_left]

end Span

/-- The positions are inside the line, and the keyword is text. -/
structure Located (received : Received) (line : Bytes) : Prop where
  payload : ∃ bytes, received.payload.slice line = some bytes
  keyword : received.kind = .status ∨ received.kind = .inquire →
    ∃ text : String, received.keyword.slice line = some (asBytes text)

theorem locate_kind (line : Bytes) (parsed : ServerLine) :
    (SessionCore.locate line parsed).kind = parsed.kind := by
  cases parsed <;> rfl

/-! ## §2  Lines and events -/

namespace ServerLine

/-- The text at the end of a line. -/
def text : ServerLine → Bytes
  | .ok text => text
  | .err _ text => text
  | .data text => text
  | .status _ args => args
  | .inquire _ args => args
  | .comment text => text
  | .end_ => []
  | .empty => []

def code : ServerLine → Option UInt32
  | .err code _ => some code
  | _ => none

/-- What the caller gets to see of the text: data is decoded, if it can be. -/
def content : ServerLine → Option Bytes
  | .data text => decodeRef text
  | parsed => some parsed.text

end ServerLine

/-- The event of a line. An empty line has none, nor has data that cannot be
decoded. -/
def told (sensitivity : Sensitivity) : ServerLine → Option Event
  | .ok text => some (.finished none (PayloadRef.new text sensitivity))
  | .err code text => some (.finished (some code) (PayloadRef.new text sensitivity))
  | .data text => (decodeRef text).map fun bytes => .data (PayloadRef.new bytes sensitivity)
  | .status keyword args => some (.status keyword (PayloadRef.new args sensitivity))
  | .inquire keyword args =>
      some (.inquire ⟨asBytes keyword ++ args, (asBytes keyword).length, 0, false⟩)
  | .comment text => some (.comment (PayloadRef.new text sensitivity))
  | .end_ => some .end_
  | .empty => none

/-- The positions point at the parts of the parsed line, in the line as the buffer
holds it. -/
structure Presents (parsed : ServerLine) (received : Received) (held : Bytes) : Prop where
  kind : received.kind = parsed.kind
  code : received.code = parsed.code
  payload : ∃ content, parsed.content = some content ∧ received.payload.slice held = some content
  keyword : ∀ keyword args, parsed = .status keyword args ∨ parsed = .inquire keyword args →
    received.keyword.slice held = some (asBytes keyword)

/-- Only `close` closes a machine. -/
theorem ClientMachine.receive_closed {machine : ClientMachine} {kind : LineKind}
    (h : machine.state ≠ .closed) : (machine.receive kind).2.state ≠ .closed := by
  obtain ⟨state, origin⟩ := machine
  unfold ClientMachine.receive ClientMachine.invalidate
  cases state <;> cases kind <;> simp_all
  all_goals split <;> simp

section Lines

variable {line held : Bytes} {parsed : ServerLine} {received : Received} {core : SessionCore}

theorem splitField_suffix (bytes : Bytes) : ∃ before, bytes = before ++ (splitField bytes).2 := by
  rcases splitField_spec bytes with ⟨hnil, hbytes⟩ | hbytes
  · exact ⟨bytes, by rw [hnil, List.append_nil]⟩
  · exact ⟨(splitField bytes).1 ++ [space], by simpa using hbytes⟩

/-- The text is the end of the line. -/
theorem parseServerLine_text (h : parseServerLine line = .ok parsed) :
    ∃ before, line = before ++ parsed.text := by
  obtain ⟨-, hspells⟩ := parseServerLine_spells h
  cases hspells with
  | empty => exact ⟨[], rfl⟩
  | comment text => exact ⟨asBytes "#", rfl⟩
  | ok => exact ⟨asBytes "OK", (List.append_nil _).symm⟩
  | okText text => exact ⟨asBytes "OK ", rfl⟩
  | @err fields parsed herr =>
      obtain ⟨-, -, -, rfl⟩ := parseErr_eq_ok.mp herr
      obtain ⟨before, hbefore⟩ := splitField_suffix fields
      refine ⟨asBytes "ERR " ++ before, ?_⟩
      rw [List.append_assoc]
      exact congrArg (asBytes "ERR " ++ ·) hbefore
  | data bytes => exact ⟨asBytes "D ", rfl⟩
  | @status fields args keyword hk =>
      obtain ⟨before, hbefore⟩ := splitField_suffix fields
      rw [(parseKeyword_eq_ok.mp hk).2] at hbefore
      refine ⟨asBytes "S " ++ before, ?_⟩
      rw [List.append_assoc]
      exact congrArg (asBytes "S " ++ ·) hbefore
  | @inquire fields args keyword hk =>
      obtain ⟨before, hbefore⟩ := splitField_suffix fields
      rw [(parseKeyword_eq_ok.mp hk).2] at hbefore
      refine ⟨asBytes "INQUIRE " ++ before, ?_⟩
      rw [List.append_assoc]
      exact congrArg (asBytes "INQUIRE " ++ ·) hbefore
  | end_ => exact ⟨asBytes "END", (List.append_nil _).symm⟩

/-- Keyword and arguments share the line. -/
theorem parseServerLine_fields {keyword : String} {args : Bytes}
    (h : parseServerLine line = .ok parsed)
    (hparsed : parsed = .status keyword args ∨ parsed = .inquire keyword args) :
    (asBytes keyword).length + args.length ≤ line.length := by
  have hfields : ∀ {fields : Bytes}, parseKeyword fields = .ok (keyword, args) →
      (asBytes keyword).length + args.length ≤ fields.length := by
    intro fields hk
    have hsplit := (parseKeyword_eq_ok.mp hk).2
    rcases splitField_spec fields with ⟨hnil, hbytes⟩ | hbytes
    · rw [hsplit] at hnil hbytes
      simp only at hnil hbytes
      rw [hbytes, hnil]
      exact Nat.le_refl _
    · rw [hsplit] at hbytes
      simp only at hbytes
      rw [hbytes, List.length_append, List.length_cons]
      omega
  obtain ⟨hstatus, hinquire⟩ := parseServerLine_eq_ok h
  rcases hparsed with rfl | rfl
  · obtain ⟨fields, rfl, hk⟩ := hstatus keyword args rfl
    rw [List.length_append]
    exact Nat.le_trans (hfields hk) (Nat.le_add_left _ _)
  · obtain ⟨fields, rfl, hk⟩ := hinquire keyword args rfl
    rw [List.length_append]
    exact Nat.le_trans (hfields hk) (Nat.le_add_left _ _)

theorem Presents.located (h : Presents parsed received held) : Located received held := by
  constructor
  · obtain ⟨content, -, hslice⟩ := h.payload
    exact ⟨content, hslice⟩
  · rw [h.kind]
    intro hkind
    cases parsed with
    | status keyword args => exact ⟨keyword, h.keyword keyword args (Or.inl rfl)⟩
    | inquire keyword args => exact ⟨keyword, h.keyword keyword args (Or.inr rfl)⟩
    | _ => exact absurd hkind (by simp [ServerLine.kind])

theorem content_of_kind (h : parsed.kind ≠ .data) : parsed.content = some parsed.text := by
  cases parsed with
  | data text => exact absurd rfl h
  | _ => rfl

theorem locate_payload (h : parseServerLine line = .ok parsed) :
    (locate line parsed).payload.slice line = some parsed.text := by
  obtain ⟨before, hline⟩ := parseServerLine_text h
  have hsuffix : (⟨line.length - parsed.text.length, line.length⟩ : Span).slice line =
      some parsed.text := by
    rw [Span.slice_suffix, hline, List.length_append, Nat.add_sub_cancel, List.drop_left]
  cases parsed with
  | end_ => simp [locate, Span.slice, ServerLine.text]
  | empty => simp [locate, Span.slice, ServerLine.text]
  | _ => exact hsuffix

theorem locate_keyword (h : parseServerLine line = .ok parsed) {keyword : String} {args : Bytes}
    (hparsed : parsed = .status keyword args ∨ parsed = .inquire keyword args) :
    (locate line parsed).keyword.slice line = some (asBytes keyword) := by
  obtain ⟨hstatus, hinquire⟩ := parseServerLine_eq_ok h
  rcases hparsed with rfl | rfl
  · obtain ⟨fields, rfl, hfields⟩ := hstatus keyword args rfl
    obtain ⟨rest, rfl⟩ := parseKeyword_starts hfields
    rw [← List.append_assoc]
    exact Span.slice_infix (asBytes "S ") (asBytes keyword) rest
  · obtain ⟨fields, rfl, hfields⟩ := hinquire keyword args rfl
    obtain ⟨rest, rfl⟩ := parseKeyword_starts hfields
    rw [← List.append_assoc]
    exact Span.slice_infix (asBytes "INQUIRE ") (asBytes keyword) rest

theorem locate_presents (h : parseServerLine line = .ok parsed) (hdata : parsed.kind ≠ .data) :
    Presents parsed (locate line parsed) line := by
  refine ⟨locate_kind line parsed, ?_, ⟨_, content_of_kind hdata, locate_payload h⟩, ?_⟩
  · cases parsed <;> rfl
  · intro keyword args hparsed
    exact locate_keyword h hparsed

/-! ## §3  Classification -/

theorem decodePayload_data {received : Received} (h : received.kind = .data) :
    decodePayload line received core =
      match decodeRef (line.drop received.payload.start) with
      | some decoded =>
          (.ok { received with payload :=
              ⟨received.payload.start, received.payload.start + decoded.length⟩ },
            { core with channel := core.channel.editLine (line.take received.payload.start ++
              (decoded ++ (line.drop received.payload.start).drop decoded.length)) })
      | none =>
          (.err (.protocol .invalidEscape), { core with
            channel := core.channel.editLine
              (line.take received.payload.start ++ line.drop received.payload.start) }) := by
  rw [decodePayload, if_pos h]
  simp only [decodeDataInPlace_eq]
  cases decodeRef (line.drop received.payload.start) <;> rfl

/-- The positions of a data line before it is decoded. -/
theorem locate_data {text : Bytes} (h : parseServerLine line = .ok (.data text)) :
    line = asBytes "D " ++ text ∧
      locate line (.data text) = ⟨.data, none, ⟨2, line.length⟩, ⟨0, 0⟩⟩ := by
  obtain ⟨-, hspells⟩ := parseServerLine_spells h
  obtain rfl : line = asBytes "D " ++ text := by
    cases hspells with
    | data => rfl
    | err herr =>
        obtain ⟨-, -, -, hparsed⟩ := parseErr_eq_ok.mp herr
        exact absurd hparsed (by simp)
  refine ⟨rfl, ?_⟩
  have hstart : (asBytes "D " ++ text).length - text.length = 2 := by
    rw [List.length_append, Nat.add_sub_cancel]
    rfl
  simp only [locate, hstart]

/-- The session with another line buffer: all that decoding can change. -/
def withLine (core : SessionCore) (buffer : LineBuffer) : SessionCore :=
  { core with channel := { core.channel with line := buffer } }

/-- The channel after the line was overwritten by `held`, or left alone. -/
def Rewritten (ch : Channel) (line : Bytes) (ch' : Channel) (held : Bytes) : Prop :=
  held.length = line.length ∧ (ch' = ch.editLine held ∨ held = line ∧ ch' = ch)

theorem Rewritten.receivedLine {ch ch' : Channel} (h : Rewritten ch line ch' held)
    (hholds : Holds ch line) : ch'.receivedLine = some held := by
  obtain ⟨hlength, rfl | ⟨rfl, rfl⟩⟩ := h
  · exact hholds.editLine hlength
  · obtain ⟨seg, hseg, hbuffer, rfl⟩ := hholds
    rw [Channel.receivedLine, hbuffer, line_complete hseg]

theorem Rewritten.buffer {ch ch' : Channel} (h : Rewritten ch line ch' held) :
    ∃ buffer, ch' = { ch with line := buffer } := by
  obtain ⟨-, rfl | ⟨-, rfl⟩⟩ := h
  · exact ⟨ch.line.editLine held, rfl⟩
  · exact ⟨ch'.line, rfl⟩

/-- Content is presented in the line as it is then, decoded if it is data;
otherwise the line is refused. The keyword stays where it was found. -/
theorem decodePayload_cases (hparse : parseServerLine line = .ok parsed) :
    (∃ received ch held, decodePayload line (locate line parsed) core =
        (.ok received, { core with channel := ch }) ∧
      Rewritten core.channel line ch held ∧ Presents parsed received held ∧
      received.keyword = (locate line parsed).keyword) ∨
    (parsed.content = none ∧ decodePayload line (locate line parsed) core =
      (.err (.protocol .invalidEscape), { core with channel := core.channel.editLine line })) := by
  by_cases hkind : parsed.kind = .data
  · obtain ⟨text, rfl⟩ : ∃ text, parsed = .data text := by
      cases parsed with
      | data text => exact ⟨text, rfl⟩
      | _ => exact absurd hkind (by simp [ServerLine.kind])
    obtain ⟨rfl, hlocate⟩ := locate_data hparse
    have hdrop : (asBytes "D " ++ text).drop 2 = text := rfl
    have htake : (asBytes "D " ++ text).take 2 = asBytes "D " := rfl
    -- the payload is decoded in place, so the line keeps its length
    rw [hlocate, decodePayload_data rfl]
    simp only [hdrop, htake]
    cases hdecode : decodeRef text with
    | none => exact Or.inr ⟨hdecode, rfl⟩
    | some decoded =>
        have hle := decodeRef_length hdecode
        have hlength : (asBytes "D " ++ (decoded ++ text.drop decoded.length)).length =
            (asBytes "D " ++ text).length := by
          simp only [List.length_append, List.length_drop]
          omega
        refine Or.inl ⟨_, _, _, rfl, ⟨hlength, Or.inl rfl⟩, ⟨rfl, rfl, ⟨decoded, hdecode, ?_⟩, ?_⟩,
          rfl⟩
        · rw [← List.append_assoc]
          exact Span.slice_infix (asBytes "D ") decoded _
        · intro keyword args h
          exact absurd h (by simp)
  · refine Or.inl ⟨locate line parsed, core.channel, line, ?_, ⟨rfl, Or.inr ⟨rfl, rfl⟩⟩,
      locate_presents hparse hkind, rfl⟩
    rw [decodePayload, if_neg (by rw [locate_kind]; exact hkind)]

/-- How `classify` ends: the line is malformed, its escapes are broken, the machine
does not want it, or it is accepted. The machine is asked only about content. -/
inductive ClassifyEnd (line : Bytes) (core : SessionCore) :
    Outcome ClientError Received → SessionCore → Prop where
  | malformed (e : ProtocolError) : parseServerLine line = .err e →
      ClassifyEnd line core (.err (.protocol e)) core
  | undecodable (parsed : ServerLine) : parseServerLine line = .ok parsed →
      parsed.content = none →
      ClassifyEnd line core (.err (.protocol .invalidEscape))
        { core with channel := core.channel.editLine line }
  | unwanted (parsed : ServerLine) (e : StateError) (ch : Channel) (held : Bytes)
      (machine : ClientMachine) : parseServerLine line = .ok parsed →
      parsed.content.isSome = true → core.machine.receive parsed.kind = (.error e, machine) →
      Rewritten core.channel line ch held →
      ClassifyEnd line core
        (.err (if e = .greetingRejected then .greetingRejected (parsed.code.getD 0) else .state e))
        { core with channel := ch, machine := machine }
  | accepted (parsed : ServerLine) (received : Received) (ch : Channel) (held : Bytes)
      (machine : ClientMachine) : parseServerLine line = .ok parsed →
      core.machine.receive parsed.kind = (.ok (), machine) →
      Rewritten core.channel line ch held → Presents parsed received held →
      received.keyword = (locate line parsed).keyword →
      ClassifyEnd line core (.ok received) { core with channel := ch, machine := machine }

theorem Presents.content_isSome (h : Presents parsed received held) :
    parsed.content.isSome = true := by
  obtain ⟨content, hcontent, -⟩ := h.payload
  rw [hcontent]
  rfl

theorem classify_ends (line : Bytes) (core : SessionCore) :
    Action.Post (classify line) core (ClassifyEnd line core) := by
  apply Action.Post.intro
  intro o core' hrun
  rcases parseServerLine_returns line with ⟨parsed, hparse⟩ | ⟨e, hparse⟩
  · rw [classify, hparse, Outcome.mapErr_ok, Action.lift_ok_bind] at hrun
    rcases decodePayload_cases hparse with
      ⟨received, ch, held, hdecode, hrewritten, hpresents, hkeyword⟩ | ⟨hcontent, hdecode⟩
    · rw [Action.bind_ok hdecode] at hrun
      rcases hreceive : core.machine.receive parsed.kind with ⟨answer, machine⟩
      have hmachine : core.machine.receive received.kind = (answer, machine) := by
        rw [hpresents.kind, hreceive]
      cases answer with
      | ok u =>
          rw [Action.bind_ok (by rw [receiveEvent, hmachine])] at hrun
          obtain ⟨rfl, rfl⟩ := Prod.mk.inj hrun
          exact .accepted parsed received ch held machine hparse hreceive hrewritten hpresents hkeyword
      | error e =>
          have hrefuse : receiveEvent received { core with channel := ch } =
              (.err (if e = .greetingRejected then .greetingRejected (parsed.code.getD 0)
                else .state e), { core with channel := ch, machine := machine }) := by
            rw [receiveEvent, hmachine, ← hpresents.code]
            cases e <;> rfl
          rw [Action.bind_failed hrefuse (by simp)] at hrun
          obtain ⟨rfl, rfl⟩ := Prod.mk.inj hrun
          exact .unwanted parsed e ch held machine hparse hpresents.content_isSome hreceive hrewritten
    · rw [Action.bind_failed hdecode (by simp)] at hrun
      obtain ⟨rfl, rfl⟩ := Prod.mk.inj hrun
      exact .undecodable parsed hparse hcontent
  · rw [classify, hparse] at hrun
    obtain ⟨rfl, rfl⟩ := Prod.mk.inj hrun
    exact .malformed e hparse

/-- A line that is well formed and wanted is classified; every other is refused,
and a machine that was open is not closed by that. -/
theorem classify_cases (hholds : Holds core.channel line) :
    (∃ parsed received buffer held machine, parseServerLine line = .ok parsed ∧
      core.machine.receive parsed.kind = (.ok (), machine) ∧
      classify line core = (.ok received, { withLine core buffer with machine := machine }) ∧
      buffer.line = some held ∧ Presents parsed received held) ∨
    ((∀ parsed machine, parseServerLine line = .ok parsed → parsed.content.isSome = true →
        core.machine.receive parsed.kind ≠ (.ok (), machine)) ∧
      ∃ e buffer machine,
        classify line core = (.err e, { withLine core buffer with machine := machine }) ∧
        (core.machine.state ≠ .closed → machine.state ≠ .closed)) := by
  rcases hrun : classify line core with ⟨o, core'⟩
  cases (classify_ends line core).elim hrun with
  | accepted parsed received ch held machine hparse hreceive hrewritten hpresents _ =>
      have hheld := hrewritten.receivedLine hholds
      obtain ⟨buffer, rfl⟩ := hrewritten.buffer
      exact Or.inl ⟨parsed, received, buffer, held, machine, hparse, hreceive, rfl, hheld, hpresents⟩
  | malformed e hparse =>
      refine Or.inr ⟨?_, _, core.channel.line, core.machine, rfl, id⟩
      intro parsed' machine' hparse'
      exact absurd (hparse.symm.trans hparse') (by simp)
  | undecodable parsed hparse hcontent =>
      refine Or.inr ⟨?_, _, core.channel.line.editLine line, core.machine, rfl, id⟩
      intro parsed' machine' hparse' hsome
      obtain rfl := Outcome.ok.inj (hparse.symm.trans hparse')
      rw [hcontent] at hsome
      exact absurd hsome (by simp)
  | unwanted parsed e ch held machine hparse _ hreceive hrewritten =>
      obtain ⟨buffer, rfl⟩ := hrewritten.buffer
      refine Or.inr ⟨?_, _, buffer, machine, rfl, ?_⟩
      · intro parsed' machine' hparse' _ hok
        obtain rfl := Outcome.ok.inj (hparse.symm.trans hparse')
        exact absurd (hreceive.symm.trans hok) (by simp)
      · obtain rfl : (core.machine.receive parsed.kind).2 = machine := by rw [hreceive]
        exact ClientMachine.receive_closed

/-! ## §4  Events -/

theorem extendFromSlice_cases (stored bytes : Bytes) :
    Transaction.extendFromSlice stored bytes = .ok (stored ++ bytes) ∨
      (maxLineBytes < (stored ++ bytes).length ∧
        ∃ e, Transaction.extendFromSlice stored bytes = .err e) := by
  unfold Transaction.extendFromSlice
  rw [List.length_append]
  cases hsum : checkedAdd usizeMax stored.length bytes.length with
  | none =>
      have hover := checkedAdd_eq_none.mp hsum
      exact Or.inr ⟨Nat.lt_trans (by decide : maxLineBytes < usizeMax) hover, _, rfl⟩
  | some length =>
      obtain ⟨-, rfl⟩ := checkedAdd_eq_some.mp hsum
      by_cases hlong : stored.length + bytes.length > maxLineBytes
      · exact Or.inr ⟨hlong, _, if_pos hlong⟩
      · exact Or.inl (if_neg hlong)

/-- The event of a line other than an inquiry is cut out of the buffer. -/
theorem plainEvent_told (hline : core.channel.receivedLine = some held)
    (h : Presents parsed received held) (hempty : parsed.kind ≠ .empty)
    (hinquire : parsed.kind ≠ .inquire) :
    ∃ event, Transaction.plainEvent received core = (.ok event, core) ∧
      told core.sensitivity parsed = some event := by
  obtain ⟨content, hcontent, hpayload⟩ := h.payload
  have hrun : ∀ {event}, Transaction.eventOf received held
      (PayloadRef.new content core.sensitivity) = .ok event →
      Transaction.plainEvent received core = (.ok event, core) := by
    intro event hevent
    unfold Transaction.plainEvent
    rw [Action.bind_ok (Action.get_apply core), hline, Outcome.okOr_some, Action.lift_ok_bind,
      hpayload, Outcome.index_some, Action.lift_ok_bind, hevent]
    rfl
  have hcode := h.code
  have hkind := h.kind
  cases parsed with
  | empty => exact absurd rfl hempty
  | inquire keyword args => exact absurd rfl hinquire
  | ok text =>
      obtain rfl : text = content := Option.some.inj hcontent
      exact ⟨_, hrun (by rw [Transaction.eventOf, hkind, hcode]; rfl), rfl⟩
  | err code text =>
      obtain rfl : text = content := Option.some.inj hcontent
      exact ⟨_, hrun (by rw [Transaction.eventOf, hkind, hcode]; rfl), rfl⟩
  | data text =>
      refine ⟨_, hrun (by rw [Transaction.eventOf, hkind]; rfl), ?_⟩
      have hdecode : decodeRef text = some content := hcontent
      simp [told, hdecode]
  | status keyword args =>
      obtain rfl : args = content := Option.some.inj hcontent
      refine ⟨_, hrun ?_, rfl⟩
      rw [Transaction.eventOf, hkind]
      simp only [ServerLine.kind, h.keyword keyword args (Or.inl rfl), Outcome.index_some,
        Outcome.ok_bind, fromUtf8_asBytes, Outcome.okOr_some]
  | comment text =>
      obtain rfl : text = content := Option.some.inj hcontent
      exact ⟨_, hrun (by rw [Transaction.eventOf, hkind]; rfl), rfl⟩
  | end_ => exact ⟨_, hrun (by rw [Transaction.eventOf, hkind]; rfl), rfl⟩

/-- Why there is no guard for an inquiry. -/
def Unguarded (core : SessionCore) (metadata : Bytes) (e : ClientError) : Prop :=
  (core.allocations.headD false = true ∧ e = .limit .allocationFailed) ∨
    (core.horizon.headD false = true ∧ e = .invalidOptions) ∨ maxLineBytes < metadata.length

/-- The guard of an inquiry copies the keyword and the arguments, unless it runs
out of memory or time. -/
theorem newInquiry_cases {keyword args : Bytes} (hline : core.channel.receivedLine = some held)
    (hkeyword : received.keyword.slice held = some keyword)
    (hpayload : received.payload.slice held = some args) :
    Transaction.newInquiry received core = (.ok ⟨keyword ++ args, keyword.length, 0, false⟩,
          { core with allocations := core.allocations.tail, horizon := core.horizon.tail }) ∨
      ∃ e horizon, Unguarded core (keyword ++ args) e ∧
        Transaction.newInquiry received core = (.err e, invalidate
          { core with allocations := core.allocations.tail, horizon := horizon }) := by
  unfold Transaction.newInquiry
  -- in the order of the code: memory, the two copies, the deadline
  by_cases hrefused : core.allocations.headD false = true
  · have hallocate : Transaction.allocate core =
        (.err (.limit .allocationFailed), { core with allocations := core.allocations.tail }) := by
      rw [Transaction.allocate, if_pos hrefused]
    refine Or.inr ⟨.limit .allocationFailed, core.horizon, Or.inl ⟨hrefused, rfl⟩, ?_⟩
    rw [Action.onError, Action.bind_failed hallocate (by simp)]
    rfl
  have hallocate : Transaction.allocate core =
      (.ok (), { core with allocations := core.allocations.tail }) := by
    rw [Transaction.allocate, if_neg hrefused]
  have hheld : ({ core with allocations := core.allocations.tail } :
      SessionCore).channel.receivedLine = some held := hline
  rw [Action.onError, Action.bind_ok hallocate, Action.bind_ok (Action.get_apply _), hheld,
    Outcome.okOr_some, Action.lift_ok_bind, hkeyword, Outcome.index_some, Action.lift_ok_bind]
  rcases extendFromSlice_cases [] keyword with hextend | ⟨hlong, e, hextend⟩
  · rw [hextend, Action.lift_ok_bind, hpayload, Outcome.index_some, Action.lift_ok_bind]
    rcases extendFromSlice_cases ([] ++ keyword) args with hextend' | ⟨hlong, e, hextend'⟩
    · rw [hextend', Action.lift_ok_bind]
      by_cases hlate : core.horizon.headD false = true
      · have hinstant : checkedInstant { core with allocations := core.allocations.tail } =
            (.err .invalidOptions, { core with
              allocations := core.allocations.tail, horizon := core.horizon.tail }) := by
          rw [checkedInstant, if_pos hlate]
        refine Or.inr ⟨.invalidOptions, core.horizon.tail, Or.inr (Or.inl ⟨hlate, rfl⟩), ?_⟩
        rw [Action.bind_failed hinstant (by simp)]
        rfl
      · have hinstant : checkedInstant { core with allocations := core.allocations.tail } =
            (.ok (), { core with
              allocations := core.allocations.tail, horizon := core.horizon.tail }) := by
          rw [checkedInstant, if_neg hlate]
        left
        rw [Action.bind_ok hinstant]
        rfl
    · rw [hextend', Action.lift_err_bind]
      exact Or.inr ⟨_, core.horizon, Or.inr (Or.inr hlong), rfl⟩
  · rw [hextend, Action.lift_err_bind]
    refine Or.inr ⟨_, core.horizon, Or.inr (Or.inr ?_), rfl⟩
    rw [List.nil_append] at hlong
    rw [List.length_append]
    omega

/-- What `next` makes of a line that it has read. -/
theorem makeEvent_told (hline : core.channel.receivedLine = some held)
    (h : Presents parsed received held) (hempty : parsed.kind ≠ .empty) :
    (∃ event allocations horizon, Transaction.makeEvent received core =
        (.ok event, { core with allocations := allocations, horizon := horizon }) ∧
      told core.sensitivity parsed = some event ∧
      (core.allocations = [] → allocations = []) ∧ (core.horizon = [] → horizon = [])) ∨
    ∃ keyword args, parsed = .inquire keyword args ∧ ∃ e allocations horizon,
      Unguarded core (asBytes keyword ++ args) e ∧ Transaction.makeEvent received core =
        (.err e, invalidate { core with allocations := allocations, horizon := horizon }) := by
  unfold Transaction.makeEvent
  rw [h.kind]
  by_cases hinquire : parsed.kind = .inquire
  · rw [if_pos hinquire]
    obtain ⟨keyword, args, rfl⟩ : ∃ keyword args, parsed = .inquire keyword args := by
      cases parsed with
      | inquire keyword args => exact ⟨keyword, args, rfl⟩
      | _ => exact absurd hinquire (by simp [ServerLine.kind])
    obtain ⟨content, hcontent, hpayload⟩ := h.payload
    obtain rfl : args = content := Option.some.inj hcontent
    rcases newInquiry_cases hline (h.keyword keyword args (Or.inr rfl)) hpayload with
      hrun | ⟨e, horizon, hwhy, hrun⟩
    · refine Or.inl ⟨_, core.allocations.tail, core.horizon.tail, ?_, rfl, ?_, ?_⟩
      · rw [Action.bind_ok hrun]
        rfl
      · intro hnil
        rw [hnil, List.tail_nil]
      · intro hnil
        rw [hnil, List.tail_nil]
    · refine Or.inr ⟨keyword, args, rfl, e, core.allocations.tail, horizon, hwhy, ?_⟩
      rw [Action.bind_failed hrun (by simp)]
      rfl
  · rw [if_neg hinquire]
    obtain ⟨event, hrun, htold⟩ := plainEvent_told hline h hempty hinquire
    exact Or.inl ⟨event, core.allocations, core.horizon, hrun, htold, id, id⟩

end Lines

end Assuan
