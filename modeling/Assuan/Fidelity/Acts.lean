import Assuan.Fidelity.Help
import Assuan.Fidelity.Inquiry

/-!
# What a callback does

A callback sends data and status lines, asks and listens to the whole of an
answer, and returns. `Engages` follows it through any such course, with the
choices it makes by what it hears; running it writes exactly the lines of what it
did and takes exactly the lines of the answers.
-/

namespace Assuan

open Channel LineBuffer

/-! ## §1  Acts -/

/-- An answer to an inquiry: what is sent for it, and how it ends. -/
structure Reply : Type where
  payloads : List Bytes
  cancelled : Bool

/-- The pieces that the answer is sent in. -/
def Reply.parts (answer : Reply) : List Bytes := answer.payloads.flatMap pieces

def Reply.lines (answer : Reply) : List Bytes :=
  answer.parts.map dataLine ++ [Inquiry.terminator answer.cancelled]

/-- One thing done for a command: a send, a line of `HELP`, or an inquiry with its
answer. -/
inductive Act : Type where
  | send (sending : Sending)
  | note (text : String)
  | ask (keyword : String) (args : Bytes) (answer : Reply)

/-- The lines of the server. -/
def Act.lines : Act → List Bytes
  | .send sending => sending.lines
  | .note text => [helpLine text]
  | .ask keyword args _ => [responseBody (.inquire keyword args) ++ [lf]]

/-- The lines of the client. -/
def Act.replies : Act → List Bytes
  | .ask _ _ answer => answer.lines
  | _ => []

/-- What is sent can be encoded, and an answer fits the budget. -/
def Act.Valid (limit : ℕ) : Act → Prop
  | .send sending => sending.Valid
  | .note text => Listable text
  | .ask keyword args answer =>
      Encodable (.inquire keyword args) ∧ answer.payloads.flatten.length ≤ limit

/-- Where the server stands: whether this is its greeting, and whether an inquiry was
cancelled. -/
structure Stage : Type where
  greeting : Bool
  cancelled : Bool

def Stage.origin (stage : Stage) : ServerState := if stage.greeting then .greeting else .handler

def Stage.state (stage : Stage) : ServerState :=
  if stage.cancelled then .awaitFinal else stage.origin

section Courses

variable {S : Type}

/-- A guard whose answer has ended: it may be asked again, and is finished. -/
inductive Concludes (cancelled : Bool) : Program S .inquiry → Program S .context → Prop where
  | again {k : Outcome HandlerError (Option PayloadRef) → Program S .inquiry}
      {program : Program S .context} :
      Concludes cancelled (k (.ok none)) program → Concludes cancelled (.next k) program
  | finish {k : Outcome HandlerError InquiryOutcome → Program S .context} :
      Concludes cancelled (.finish k) (k (.ok (outcomeOf cancelled)))

/-- A guard that is given the parts of an answer one by one. -/
inductive Hears (sensitivity : Sensitivity) (cancelled : Bool) :
    List Bytes → Program S .inquiry → Program S .context → Prop where
  | part {k : Outcome HandlerError (Option PayloadRef) → Program S .inquiry} {part : Bytes}
      {parts : List Bytes} {program : Program S .context} :
      Hears sensitivity cancelled parts (k (.ok (some (PayloadRef.new part sensitivity)))) program →
      Hears sensitivity cancelled (part :: parts) (.next k) program
  | last {k : Outcome HandlerError (Option PayloadRef) → Program S .inquiry}
      {program : Program S .context} :
      Concludes cancelled (k (.ok none)) program → Hears sensitivity cancelled [] (.next k) program

/-- A callback whose operations succeed: what it does from one stage to another, its
result and the state it leaves. -/
inductive Engages : Stage → Program S .context → List Act → Stage → Except HandlerError Unit → S →
    Prop where
  | done (stage : Stage) (result : Except HandlerError Unit) (state : S) :
      Engages stage (.done result state) [] stage result state
  | data {bytes : Bytes} {k : Outcome HandlerError Unit → Program S .context} {acts : List Act}
      {stage : Stage} {result : Except HandlerError Unit} {state : S} :
      Engages ⟨false, false⟩ (k (.ok ())) acts stage result state →
      Engages ⟨false, false⟩ (.sendData bytes k) (.send (.data bytes) :: acts) stage result state
  | status {keyword : String} {args : Bytes} {k : Outcome HandlerError Unit → Program S .context}
      {acts : List Act} {stage stage' : Stage} {result : Except HandlerError Unit} {state : S} :
      Engages stage (k (.ok ())) acts stage' result state →
      Engages stage (.sendStatus keyword args k) (.send (.status keyword args) :: acts) stage'
        result state
  | ask {keyword : String} {args : Bytes} {sensitivity : Sensitivity} {opened : Program S .inquiry}
      {failed : Outcome HandlerError Unit → Program S .context} {program : Program S .context}
      {answer : Reply} {acts : List Act} {greeting : Bool} {stage : Stage}
      {result : Except HandlerError Unit} {state : S} :
      Hears sensitivity answer.cancelled answer.parts opened program →
      Engages ⟨greeting, answer.cancelled⟩ program acts stage result state →
      Engages ⟨greeting, false⟩ (.inquire keyword args sensitivity opened failed)
        (.ask keyword args answer :: acts) stage result state

end Courses

/-! ## §2  One operation -/

/-- A server in the middle of an operation. -/
structure Engaged (link : Link) (stage : Stage) (input : Bytes) : Prop where
  ideal : Ideal link.channel input
  state : link.machine.state = stage.state
  origin : stage.cancelled = true → link.machine.inquiryOrigin = stage.origin

section Operations

variable {link : Link} {stage : Stage} {input rest : Bytes}

/-- What was written grows by the line. -/
theorem ideal_sendLine {line : ServerLine} {machine : ServerMachine}
    (h : Ideal link.channel input) (hencodable : Encodable line)
    (hanswer : link.machine.sendResponse line.kind = (.ok (), machine)) :
    ∃ ch, Link.ioOperation (Link.sendLine line) link = (.ok (), ⟨ch, machine⟩) ∧ Ideal ch input ∧
      written ch.trace = written link.channel.trace ++ (responseBody line ++ [lf]) := by
  obtain ⟨ch, hwrite, hideal, htrace⟩ :=
    @link_writeLine { link with machine := machine } input _ h hencodable.wire
  have hsend : Link.sendResponse line.kind link = (.ok (), { link with machine := machine }) := by
    rw [Link.sendResponse, hanswer]
    rfl
  refine ⟨ch, Action.onFailure_ok ?_, hideal, ?_⟩
  · rw [Link.sendLine, hencodable.cases.1, Outcome.mapErr_ok, Action.lift_ok_bind,
      Action.bind_ok hsend, hwrite]
  · rw [htrace, written_append, written_wrote]

theorem Engaged.answers (h : Engaged link stage input) {kind : LineKind}
    (hkind : kind = .status ∨ kind = .comment) :
    link.machine.sendResponse kind = (.ok (), link.machine) := by
  have hstate := h.state
  obtain ⟨greeting, cancelled⟩ := stage
  rcases hkind with rfl | rfl <;> cases greeting <;> cases cancelled <;>
    simp_all [ServerMachine.sendResponse, Stage.state, Stage.origin]

/-- A status or a comment is sent at any stage. -/
theorem Engaged.sendLine (h : Engaged link stage input) {line : ServerLine}
    (hkind : line.kind = .status ∨ line.kind = .comment) (hencodable : Encodable line) :
    ∃ link', Link.ioOperation (Link.sendLine line) link = (.ok (), link') ∧
      Engaged link' stage input ∧ written link'.channel.trace =
        written link.channel.trace ++ (responseBody line ++ [lf]) := by
  obtain ⟨ch, hsend, hideal, hwritten⟩ := ideal_sendLine h.ideal hencodable (h.answers hkind)
  exact ⟨_, hsend, ⟨hideal, h.state, h.origin⟩, hwritten⟩

theorem Engaged.sendData (h : Engaged link ⟨false, false⟩ input) (data : Bytes) :
    ∃ link', Link.sendData data link = (.ok (), link') ∧ Engaged link' ⟨false, false⟩ input ∧
      written link'.channel.trace =
        written link.channel.trace ++ (Sending.data data).lines.flatten := by
  obtain ⟨link', hsend, hhandling, htrace⟩ := Handling.sendData ⟨h.ideal, h.state⟩ data
  refine ⟨link', hsend, ⟨hhandling.ideal, hhandling.state, by simp⟩, ?_⟩
  rw [htrace, written_append, written_lines]

theorem Engaged.note (h : Engaged link stage input) {text : String} (htext : Listable text) :
    ∃ link', Link.comment (asBytes text) link = (.ok (), link') ∧ Engaged link' stage input ∧
      written link'.channel.trace = written link.channel.trace ++ helpLine text := by
  obtain ⟨link', hsend, hengaged, hwritten⟩ := h.sendLine (Or.inr rfl) htext.encodable
  rw [helpComment_line] at hwritten
  refine ⟨link', ?_, hengaged, hwritten⟩
  rw [Link.comment, htext.commentBody, Outcome.index_some, Action.lift_ok_bind]
  exact hsend

/-! ### Inquiries -/

/-- The server asks. -/
theorem Engaged.begin {greeting : Bool} (h : Engaged link ⟨greeting, false⟩ input)
    {keyword : String} {args : Bytes} (hencodable : Encodable (.inquire keyword args))
    (sensitivity : Sensitivity) (limit : ℕ) :
    ∃ link', ServerInquiry.begin keyword args link = (.ok (), link') ∧
      Asking (ServerInquiry.new link' sensitivity limit) input ∧
      link'.machine.inquiryOrigin = (Stage.mk greeting false).origin ∧
      written link'.channel.trace =
        written link.channel.trace ++ (responseBody (.inquire keyword args) ++ [lf]) := by
  have hanswer : link.machine.sendResponse .inquire =
      (.ok (), ⟨.inquiry, (Stage.mk greeting false).origin⟩) := by
    have hstate := h.state
    cases greeting <;> simp_all [ServerMachine.sendResponse, Stage.state, Stage.origin]
  obtain ⟨ch, hsend, hideal, hwritten⟩ := ideal_sendLine h.ideal hencodable hanswer
  exact ⟨_, hsend, ⟨hideal, rfl, rfl⟩, rfl, hwritten⟩

/-- What is left of a guard when its answer has ended. -/
structure Concluded (inquiry : ServerInquiry) (cancelled : Bool) (rest : Bytes)
    (inquiry' : ServerInquiry) : Prop where
  ideal : Ideal inquiry'.link.channel rest
  outcome : inquiry'.outcome = some (outcomeOf cancelled)
  machine : inquiry'.link.machine = inquiry.link.machine
  written : written inquiry'.link.channel.trace = written inquiry.link.channel.trace

theorem Asking.concluded {inquiry : ServerInquiry} {cancelled : Bool}
    (h : Asking inquiry (Inquiry.terminator cancelled ++ rest)) :
    ∃ inquiry', ServerInquiry.next inquiry = (.ok none, inquiry') ∧
      Concluded inquiry cancelled rest inquiry' := by
  obtain ⟨inquiry', hnext, hideal, houtcome, -, hsame⟩ := @Asking.next_end inquiry rest [] cancelled
    (by simp) h
  exact ⟨inquiry', hnext, hideal, houtcome, hsame.machine, hsame.written⟩

theorem Concluded.finish {inquiry inquiry' : ServerInquiry} {cancelled : Bool}
    (h : Concluded inquiry cancelled rest inquiry')
    (hstate : inquiry.link.machine.state = .inquiry) :
    inquiry'.finish = (.ok (outcomeOf cancelled),
      ⟨inquiry'.link.channel, answeredMachine inquiry.link.machine cancelled⟩) := by
  have hfinish := finish_ok (by rw [h.machine]; exact hstate) h.outcome
  rw [h.machine] at hfinish
  exact hfinish

end Operations

/-! ## §3  Whole callbacks -/

section Runs

variable {S : Type} {limit : ℕ} {rest : Bytes}

/-- After the end nothing is read any more, and the machine goes on. -/
theorem Concludes.run {cancelled : Bool} {p : Program S .inquiry} {program : Program S .context}
    (h : Concludes cancelled p program) {inquiry inquiry' : ServerInquiry}
    (hconcluded : Concluded inquiry cancelled rest inquiry')
    (hstate : inquiry.link.machine.state = .inquiry) :
    p.run limit inquiry' false = program.run limit
      ⟨inquiry'.link.channel, answeredMachine inquiry.link.machine cancelled⟩ false := by
  induction h with
  | again _ ih =>
      have hsome : inquiry'.outcome.isSome = true := by rw [hconcluded.outcome]; rfl
      rw [Program.run, next_again hsome]
      exact ih
  | finish =>
      rw [Program.run, hconcluded.finish hstate]
      rfl

/-- The whole answer is heard, by induction on its parts. -/
theorem Hears.run {sensitivity : Sensitivity} {cancelled : Bool} {parts : List Bytes}
    {p : Program S .inquiry} {program : Program S .context}
    (h : Hears sensitivity cancelled parts p program) {inquiry : ServerInquiry}
    (hparts : ∀ part ∈ parts, (dataLine part).length ≤ maxLineBytes)
    (hasking : Asking inquiry
      ((parts.map dataLine ++ [Inquiry.terminator cancelled]).flatten ++ rest))
    (hsensitivity : inquiry.sensitivity = sensitivity) (hmax : inquiry.limit ≤ usizeMax)
    (hfits : inquiry.received + parts.flatten.length ≤ inquiry.limit) :
    ∃ ch, p.run limit inquiry false = program.run limit
        ⟨ch, answeredMachine inquiry.link.machine cancelled⟩ false ∧
      Ideal ch rest ∧ written ch.trace = written inquiry.link.channel.trace := by
  induction h generalizing inquiry with
  | @part k part parts program _ ih =>
      rw [List.flatten_cons, List.length_append] at hfits
      rw [List.map_cons, List.cons_append, List.flatten_cons, List.append_assoc] at hasking
      obtain ⟨inquiry', hnext, hasking', hreceived, hsame⟩ := @Asking.next_data inquiry
        ((parts.map dataLine ++ [Inquiry.terminator cancelled]).flatten ++ rest) [] part (by simp)
        hasking (hparts part List.mem_cons_self) hmax (by omega)
      obtain ⟨ch, hrun, hideal, hwritten⟩ := @ih inquiry'
        (fun p hp => hparts p (List.mem_cons_of_mem _ hp)) hasking'
        (hsame.sensitivity.trans hsensitivity) (by rw [hsame.limit]; exact hmax)
        (by rw [hsame.limit, hreceived]; omega)
      refine ⟨ch, ?_, hideal, hwritten.trans hsame.written⟩
      rw [← hsame.machine, ← hrun, Program.run, hnext, hsensitivity]
      rfl
  | @last k program hconcludes =>
      have hinput : ([].map dataLine ++ [Inquiry.terminator cancelled]).flatten ++ rest =
          Inquiry.terminator cancelled ++ rest := by simp
      rw [hinput] at hasking
      obtain ⟨inquiry', hnext, hconcluded⟩ := hasking.concluded
      refine ⟨inquiry'.link.channel, ?_, hconcluded.ideal, hconcluded.written⟩
      rw [Program.run, hnext]
      exact hconcludes.run hconcluded hasking.state

theorem Reply.parts_flatten (answer : Reply) : answer.parts.flatten = answer.payloads.flatten :=
  flatten_flatMap_pieces answer.payloads

theorem Reply.parts_length {answer : Reply} {part : Bytes} (h : part ∈ answer.parts) :
    (dataLine part).length ≤ maxLineBytes := by
  obtain ⟨bytes, -, hpiece⟩ := List.mem_flatMap.mp h
  exact dataLine_length hpiece

/-- Running a callback does what it does: it writes the lines of its acts and takes
the lines of the answers, byte for byte. -/
theorem Engages.run {stage stage' : Stage} {program : Program S .context} {acts : List Act}
    {result : Except HandlerError Unit} {state : S}
    (h : Engages stage program acts stage' result state) (hmax : limit ≤ usizeMax) {link : Link}
    (hvalid : ∀ act ∈ acts, act.Valid limit)
    (hengaged : Engaged link stage ((acts.flatMap Act.replies).flatten ++ rest)) :
    ∃ link', program.run limit link false = ⟨some result, state, false, link'⟩ ∧
      Engaged link' stage' rest ∧ written link'.channel.trace =
        written link.channel.trace ++ (acts.flatMap Act.lines).flatten := by
  induction h generalizing link with
  | done stage result state => exact ⟨link, rfl, hengaged, by simp⟩
  | @data bytes k acts stage result state _ ih =>
      obtain ⟨link₁, hsend, hengaged₁, hwritten⟩ := hengaged.sendData bytes
      obtain ⟨link', hrun, hengaged', hwritten'⟩ :=
        ih (fun act hact => hvalid act (List.mem_cons_of_mem _ hact)) hengaged₁
      refine ⟨link', ?_, hengaged', ?_⟩
      · rw [Program.run, hsend]
        exact hrun
      · rw [hwritten', hwritten, List.flatMap_cons, List.flatten_append, List.append_assoc]
        rfl
  | @status keyword args k acts stage stage' result state _ ih =>
      have hencodable : Encodable (.status keyword args) := hvalid _ List.mem_cons_self
      obtain ⟨link₁, hsend, hengaged₁, hwritten⟩ := hengaged.sendLine (Or.inl rfl) hencodable
      obtain ⟨link', hrun, hengaged', hwritten'⟩ :=
        ih (fun act hact => hvalid act (List.mem_cons_of_mem _ hact)) hengaged₁
      refine ⟨link', ?_, hengaged', ?_⟩
      · rw [Program.run, Link.sendStatus, hsend]
        exact hrun
      · rw [hwritten', hwritten, List.flatMap_cons, List.flatten_append, List.append_assoc]
        simp [Act.lines, Sending.lines]
  | @ask keyword args sensitivity opened failed program answer acts greeting stage result state
      hhears _ ih =>
      obtain ⟨hencodable, hfits⟩ := hvalid _ List.mem_cons_self
      obtain ⟨link₁, hbegin, hasking, horigin, hwritten⟩ :=
        hengaged.begin hencodable sensitivity limit
      have hinput : ((Act.ask keyword args answer :: acts).flatMap Act.replies).flatten ++ rest =
          (answer.parts.map dataLine ++ [Inquiry.terminator answer.cancelled]).flatten ++
            ((acts.flatMap Act.replies).flatten ++ rest) := by
        rw [List.flatMap_cons, List.flatten_append, List.append_assoc]
        rfl
      rw [hinput] at hasking
      obtain ⟨ch, hheard, hideal, hwritten₁⟩ := @Hears.run S limit _ _ _ _ _ _ hhears _
        (fun _ => Reply.parts_length) hasking rfl hmax
        (by
          rw [answer.parts_flatten]
          show 0 + _ ≤ limit
          omega)
      have hengaged₁ : Engaged ⟨ch, answeredMachine link₁.machine answer.cancelled⟩
          ⟨greeting, answer.cancelled⟩ ((acts.flatMap Act.replies).flatten ++ rest) := by
        refine ⟨hideal, ?_, fun _ => horigin⟩
        show (if answer.cancelled then ServerState.awaitFinal else link₁.machine.inquiryOrigin) = _
        rw [horigin]
        rfl
      obtain ⟨link', hrun, hengaged', hwritten'⟩ :=
        ih (fun act hact => hvalid act (List.mem_cons_of_mem _ hact)) hengaged₁
      refine ⟨link', ?_, hengaged', ?_⟩
      · rw [Program.run, hbegin]
        exact hheard.trans hrun
      · rw [hwritten', List.flatMap_cons, List.flatten_append, ← List.append_assoc]
        show written ch.trace ++ _ = _
        rw [hwritten₁]
        show written link₁.channel.trace ++ _ = _
        rw [hwritten]
        simp [Act.lines]

end Runs

end Assuan
