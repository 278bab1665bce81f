import Assuan.Foundation.Runs
import Assuan.Client.Attribution
import Assuan.Client.Handshake
import Assuan.Protocol.Agreement

/-!
# What a client says and hears

The dialogue of a client is a word over the lines it takes and the lines it writes.
Its grammar is written down here without the machine of the client, from the greeting
on. Every program that uses a client, with the greeting in its own hands, keeps to the
grammar, whatever the peer sends and wherever a read or a write fails.
-/

namespace Assuan

open Channel LineBuffer SessionCore

/-! ## §1  The grammar -/

inductive Utterance : Type where
  | heard (seg : Bytes)
  | said (line : Bytes)
deriving DecidableEq

def heard (turns : List Utterance) : Bytes :=
  turns.flatMap fun turn => match turn with
    | .heard seg => seg
    | .said _ => []

def said (turns : List Utterance) : Bytes :=
  turns.flatMap fun turn => match turn with
    | .heard _ => []
    | .said bytes => bytes

/-- What is going on: nothing, an operation, its inquiry, or the rest of an operation
with a cancelled inquiry. -/
inductive TalkPhase : Type where
  | idle
  | running (op : Operation)
  | asked (op : Operation)
  | cancelled (op : Operation)
deriving DecidableEq

/-- The greeting is over. -/
def TalkPhase.Opened : TalkPhase → Prop
  | .idle => True
  | .running op | .asked op | .cancelled op => op = .command

/-- The line is complete, within the limit and well formed. -/
structure Utters (seg : Bytes) (parsed : ServerLine) : Prop where
  terminated : Terminated lf seg
  fits : seg.length ≤ maxLineBytes
  parses : parseServerLine (stripTerminator seg) = .ok parsed

inductive Talks : TalkPhase → Utterance → TalkPhase → Prop
  | idle {seg : Bytes} {parsed : ServerLine} : Utters seg parsed → parsed.kind.Ignorable →
      Talks .idle (.heard seg) .idle
  | carried (op : Operation) {seg : Bytes} {parsed : ServerLine} : Utters seg parsed →
      parsed.kind.Carried op → Talks (.running op) (.heard seg) (.running op)
  | asks (op : Operation) {seg : Bytes} {parsed : ServerLine} : Utters seg parsed →
      parsed.kind = .inquire → Talks (.running op) (.heard seg) (.asked op)
  | final (op : Operation) {seg : Bytes} {parsed : ServerLine} : Utters seg parsed →
      parsed.kind.Final op → Talks (.running op) (.heard seg) .idle
  | informs (op : Operation) {seg : Bytes} {parsed : ServerLine} : Utters seg parsed →
      parsed.kind.Informational → Talks (.cancelled op) (.heard seg) (.cancelled op)
  | settles (op : Operation) {seg : Bytes} {parsed : ServerLine} : Utters seg parsed →
      parsed.kind.Final op → Talks (.cancelled op) (.heard seg) .idle
  | commands (command : Command) {line : Bytes} : encoded (encodeCommand command) = .ok line →
      Talks .idle (.said line) (.running .command)
  | answers (op : Operation) {data piece : Bytes} : piece ∈ pieces data →
      Talks (.asked op) (.said (dataLine piece)) (.asked op)
  | ends (op : Operation) : Talks (.asked op) (.said (asBytes "END\n")) (.running op)
  | cancels (op : Operation) : Talks (.asked op) (.said (asBytes "CAN\n")) (.cancelled op)

/-- A dialogue begins with the greeting. -/
inductive Dialogue : List Utterance → TalkPhase → Prop
  | nil : Dialogue [] (.running .greeting)
  | snoc {turns : List Utterance} {phase phase' : TalkPhase} {turn : Utterance} :
      Dialogue turns phase → Talks phase turn phase' → Dialogue (turns ++ [turn]) phase'

/-! ## §2  The life of a client -/

/-- A handshake, an inquiry of it, the client that it has released, or a handshake
that was consumed or dropped without one. -/
inductive Life : Type where
  | greeting (handshake : Handshake)
  | answering (handshake : Handshake) (inquiry : Inquiry)
  | client (caller : Caller)
  | gone (handshake : Handshake)

namespace Life

def core : Life → Option SessionCore
  | .greeting handshake | .answering handshake _ | .gone handshake => handshake.client
  | .client caller => some caller.core

/-- After `next`, as for a transaction. -/
def after (handshake : Handshake) : Outcome ClientError (Option Event) → Life
  | .ok (some (.inquire inquiry)) => .answering handshake inquiry
  | _ => .greeting handshake

/-- After `finish`, which consumes the handshake. -/
def finished (handshake : Handshake) : Outcome ClientError SessionCore → Life
  | .ok core => .client ⟨core, .free⟩
  | _ => .gone handshake

/-- An operation of an inquiry of the greeting. -/
def onInquiry (handshake : Handshake) (x : SessionCore → Outcome ClientError Unit × SessionCore)
    (next : Handshake → Life) : Option (Outcome ClientError Unit × Life) :=
  handshake.client.map fun core =>
    ((x core).1, next { handshake with client := some (x core).2 })

/-- One step of the program. The steps of the greeting are named like those of a
transaction. -/
def step : Life → ClientStep → Option (Outcome ClientError Unit × Life)
  | .greeting handshake, .next =>
      let r := handshake.next
      some (Caller.ending r.1, after r.2 r.1)
  | .greeting handshake, .finish =>
      let r := handshake.finish
      some (Caller.ending r.1, finished r.2 r.1)
  | .greeting handshake, .dropTransaction => some (.ok (), .gone handshake)
  | .answering handshake inquiry, .send bytes =>
      handshake.client.map fun core =>
        let r := Inquiry.send bytes (core, inquiry)
        (r.1, .answering { handshake with client := some r.2.1 } r.2.2)
  | .answering handshake inquiry, .complete cancelled =>
      onInquiry handshake (Inquiry.finish cancelled inquiry) .greeting
  | .answering handshake inquiry, .dropInquiry =>
      onInquiry handshake (fun core => (.ok (), Inquiry.drop (core, inquiry))) .greeting
  | .answering handshake _, .forgetInquiry => some (.ok (), .greeting handshake)
  | .client caller, step => (caller.step step).map fun r => (r.1, .client r.2)
  | _, _ => none

/-- `Client::handshake`. -/
def start (stream : Stream) (clock horizon allocations : List Bool) (options : ClientOptions) :
    Life :=
  .greeting (Client.handshake stream clock horizon allocations options)

/-- What the program does, step by step. -/
def run (steps : List ClientStep) (life : Life) : Option Life :=
  runSteps (fun life clientStep => (life.step clientStep).map Prod.snd) steps life

end Life

/-! ## §3  The grammar and the machine -/

def TalkPhase.Stands : TalkPhase → ClientMachine → Prop
  | .idle, machine => machine.state = .ready
  | .running op, machine => machine.state = op.client
  | .asked op, machine => machine.state = .inquiry ∧ machine.inquiryOrigin = op.client
  | .cancelled op, machine => machine.state = .awaitFinal ∧ machine.inquiryOrigin = op.client

section Machine

variable {phase phase' : TalkPhase} {turn : Utterance} {turns : List Utterance}
  {machine machine' : ClientMachine} {seg : Bytes} {parsed : ServerLine}

theorem Talks.opened (h : Talks phase turn phase') (hopened : phase.Opened) : phase'.Opened := by
  cases h <;> trivial

/-- A line that the machine accepts continues the dialogue. Nothing is read while an
inquiry is open. -/
theorem TalkPhase.Stands.hears (h : phase.Stands machine) (hopen : machine.state ≠ .inquiry)
    (hutters : Utters seg parsed) (hok : machine.receive parsed.kind = (.ok (), machine')) :
    ∃ phase', Talks phase (.heard seg) phase' ∧ phase'.Stands machine' := by
  obtain ⟨state, origin⟩ := machine
  unfold ClientMachine.receive at hok
  cases phase with
  | asked op => exact absurd h.1 hopen
  | idle =>
      obtain rfl : state = .ready := h
      cases hkind : parsed.kind <;> simp only [hkind] at hok
      case comment | empty =>
        obtain rfl := (Prod.mk.inj hok).2
        exact ⟨.idle, .idle hutters (by simp [LineKind.Ignorable, hkind]), rfl⟩
      all_goals exact absurd (Prod.mk.inj hok).1 (by simp)
  | running op =>
      obtain rfl : state = op.client := h
      have hcarried : parsed.kind.Carried op → machine' = ⟨op.client, origin⟩ →
          ∃ phase', Talks (.running op) (.heard seg) phase' ∧ phase'.Stands machine' := by
        rintro hkind rfl
        exact ⟨.running op, .carried op hutters hkind, rfl⟩
      have hfinal : parsed.kind.Final op → machine' = ⟨.ready, origin⟩ →
          ∃ phase', Talks (.running op) (.heard seg) phase' ∧ phase'.Stands machine' := by
        rintro hkind rfl
        exact ⟨.idle, .final op hutters hkind, rfl⟩
      cases op <;> cases hkind : parsed.kind <;> simp only [hkind, Operation.client] at hok
      case greeting.inquire | command.inquire =>
        obtain rfl := (Prod.mk.inj hok).2
        exact ⟨.asked _, .asks _ hutters hkind, rfl, rfl⟩
      case greeting.ok | command.ok | command.err =>
        exact hfinal (by simp [LineKind.Final, hkind]) (Prod.mk.inj hok).2.symm
      case greeting.status | greeting.comment | greeting.empty | command.status | command.comment |
          command.empty | command.data | command.end_ =>
        exact hcarried
          (by simp [LineKind.Carried, LineKind.Informational, LineKind.Ignorable, hkind])
          (Prod.mk.inj hok).2.symm
      all_goals exact absurd (Prod.mk.inj hok).1 (by simp)
  | cancelled op =>
      obtain ⟨rfl, rfl⟩ : state = .awaitFinal ∧ origin = op.client := h
      cases hkind : parsed.kind <;> simp only [hkind] at hok
      case ok =>
        obtain rfl := (Prod.mk.inj hok).2
        exact ⟨.idle, .settles op hutters (by simp [LineKind.Final, hkind]), rfl⟩
      case err =>
        cases op with
        | greeting => exact absurd (Prod.mk.inj hok).1 (by simp)
        | command =>
            obtain rfl := (Prod.mk.inj hok).2
            exact ⟨.idle, .settles .command hutters (by simp [LineKind.Final, hkind]), rfl⟩
      case status | comment | empty =>
        obtain rfl := (Prod.mk.inj hok).2
        exact ⟨.cancelled op, .informs op hutters
          (by simp [LineKind.Informational, LineKind.Ignorable, hkind]), rfl, rfl⟩
      all_goals exact absurd (Prod.mk.inj hok).1 (by simp)

theorem TalkPhase.Stands.idle (h : phase.Stands machine) (hready : machine.state = .ready) :
    phase = .idle := by
  cases phase with
  | idle => rfl
  | running op => exact absurd (h.symm.trans hready) op.client_ne_ready
  | asked op => exact absurd (h.1.symm.trans hready) (by simp)
  | cancelled op => exact absurd (h.1.symm.trans hready) (by simp)

theorem TalkPhase.Stands.asked (h : phase.Stands machine) (hinquiry : machine.state = .inquiry) :
    ∃ op : Operation, phase = .asked op ∧ machine.inquiryOrigin = op.client := by
  cases phase with
  | idle => exact absurd (h.symm.trans hinquiry) (by simp)
  | running op => exact absurd (h.symm.trans hinquiry) op.client_ne_inquiry
  | asked op => exact ⟨op, rfl, h.2⟩
  | cancelled op => exact absurd (h.1.symm.trans hinquiry) (by simp)

end Machine

/-! ## §4  The accounts -/

/-- Every byte of the stream belongs to a turn or is still unread. -/
structure Recounts (turns : List Utterance) (phase : TalkPhase) (core : SessionCore) : Prop where
  standing : Standing core.channel
  sent : written core.channel.trace = said turns
  taken : arrived core.channel.trace = heard turns ++ core.channel.unreadBytes
  stands : phase.Stands core.machine

/-- All that was said was written, but the last line perhaps in part. -/
def Spoken (turns : List Utterance) (bytes : Bytes) : Prop :=
  bytes = said turns ∨ ∃ before line n, turns = before ++ [.said line] ∧
    bytes = said before ++ line.take n

/-- What is known of a session, poisoned or not. -/
structure Accounted (P : TalkPhase → Prop) (turns : List Utterance) (phase : TalkPhase)
    (core : SessionCore) : Prop where
  dialogue : Dialogue turns phase
  holds : P phase
  sent : Spoken turns (written core.channel.trace)
  taken : heard turns <+: arrived core.channel.trace
  live : ¬ core.Poisoned → Recounts turns phase core

def Conducted (P : TalkPhase → Prop) (core : SessionCore) : Prop :=
  ∃ turns phase, Accounted P turns phase core

/-- `P` goes on to hold. -/
def Lasting (P : TalkPhase → Prop) : Prop :=
  ∀ phase turn phase', P phase → Talks phase turn phase' → P phase'

theorem lasting_opened : Lasting TalkPhase.Opened := fun _ _ _ hopened h => h.opened hopened

theorem lasting_true : Lasting fun _ => True := fun _ _ _ _ _ => trivial

theorem heard_append (turns turns' : List Utterance) :
    heard (turns ++ turns') = heard turns ++ heard turns' :=
  List.flatMap_append

theorem said_append (turns turns' : List Utterance) :
    said (turns ++ turns') = said turns ++ said turns' :=
  List.flatMap_append

section Accounts

variable {P : TalkPhase → Prop} {turns : List Utterance} {phase phase' : TalkPhase}
  {core core' : SessionCore}

theorem Conducted.of_poisoned (h : Conducted P core) (hpoisoned : core'.Poisoned)
    (htrace : core'.channel.trace = core.channel.trace) : Conducted P core' := by
  obtain ⟨turns, phase, a⟩ := h
  refine ⟨turns, phase, a.dialogue, a.holds, ?_, ?_, fun hlive => absurd hpoisoned hlive⟩
  · rw [htrace]
    exact a.sent
  · rw [htrace]
    exact a.taken

theorem Conducted.invalidate (h : Conducted P core) : Conducted P core.invalidate :=
  h.of_poisoned (poisoned_invalidate core) rfl

theorem Conducted.same (h : Conducted P core) (hchannel : core'.channel = core.channel)
    (hmachine : core'.machine = core.machine) (hflag : core'.ioUncertain = core.ioUncertain) :
    Conducted P core' := by
  obtain ⟨turns, phase, a⟩ := h
  refine ⟨turns, phase, a.dialogue, a.holds, ?_, ?_, ?_⟩
  · rw [hchannel]
    exact a.sent
  · rw [hchannel]
    exact a.taken
  · intro hlive
    have hlive' : ¬ core.Poisoned := by
      unfold Poisoned at hlive ⊢
      rwa [hflag, hmachine] at hlive
    obtain ⟨hstanding, hsent, htaken, hstands⟩ := a.live hlive'
    rw [← hchannel] at hstanding hsent htaken
    exact ⟨hstanding, hsent, htaken, hmachine ▸ hstands⟩

/-- A line is heard. -/
theorem Accounted.takes (a : Accounted P turns phase core) (hP : Lasting P)
    (hlive : ¬ core.Poisoned) (hopen : core.machine.state ≠ .inquiry) {rs : List Bytes}
    {seg : Bytes} {parsed : ServerLine} {received : Received}
    (t : Takes core rs seg parsed received core')
    (htrace : core'.channel.trace = core.channel.trace ++ rs.map .read) : Conducted P core' := by
  have r := a.live hlive
  obtain ⟨phase', htalks, hstands⟩ :=
    r.stands.hears hopen ⟨t.terminated, t.fits, t.parses⟩ t.machine
  have hsaid : written core'.channel.trace = said (turns ++ [.heard seg]) := by
    rw [htrace, written_append, written_reads, List.append_nil, said_append, r.sent]
    exact (List.append_nil _).symm
  have hheard : arrived core'.channel.trace =
      heard (turns ++ [.heard seg]) ++ core'.channel.unreadBytes := by
    have hseg : heard [.heard seg] = seg := List.append_nil seg
    rw [htrace, arrived_append, arrived_reads, heard_append, hseg, r.taken, List.append_assoc,
      List.append_assoc, t.split]
  refine ⟨_, phase', a.dialogue.snoc htalks, hP _ _ _ a.holds htalks, ?_, ?_, fun _ => ?_⟩
  · exact Or.inl hsaid
  · rw [hheard]
    exact List.prefix_append _ _
  · exact ⟨t.standing, hsaid, hheard, hstands⟩

/-- Bytes that have come in do not break the accounts. -/
theorem Accounted.reads (a : Accounted P turns phase core) (hpoisoned : core'.Poisoned)
    {rs : List Bytes} (htrace : core'.channel.trace = core.channel.trace ++ rs.map .read) :
    Accounted P turns phase core' := by
  refine ⟨a.dialogue, a.holds, ?_, ?_, fun hlive => absurd hpoisoned hlive⟩
  · rw [htrace, written_append, written_reads, List.append_nil]
    exact a.sent
  · rw [htrace, arrived_append]
    exact a.taken.trans (List.prefix_append _ _)

/-- What `read` comes to, if nothing is asked. -/
structure Listened (P : TalkPhase → Prop) (core : SessionCore) (o : Outcome ClientError Received)
    (core' : SessionCore) : Prop where
  conducted : Conducted P core'
  failed : o.Failed → core'.Poisoned
  live : ¬ o.Failed → ¬ core.Poisoned
  received : ∀ received, o = .ok received →
    core.machine.receive received.kind = (.ok (), core'.machine) ∧
      ∃ parsed : ServerLine, received.kind = parsed.kind ∧ received.code = parsed.code

theorem Conducted.read (h : Conducted P core) (hP : Lasting P)
    (hopen : ¬ core.Poisoned → core.machine.state ≠ .inquiry) :
    Action.Post SessionCore.read core (Listened P core) := by
  by_cases hlive : core.Poisoned
  · apply Action.Post.intro
    intro o core' hrun
    rw [hlive.read] at hrun
    obtain ⟨rfl, rfl⟩ := Prod.mk.inj hrun
    exact ⟨h.invalidate, fun _ => poisoned_invalidate core, by simp, by simp⟩
  · obtain ⟨turns, phase, a⟩ := h
    apply Action.Post.mono (read_cases (a.live hlive).standing hlive)
    rintro o core' ⟨rs, htrace, hend⟩
    have hends := hend.ends
    cases hend with
    | took seg parsed t =>
        refine ⟨a.takes hP hlive (hopen hlive) t htrace, hends.1, fun _ => hlive, ?_⟩
        rintro received ⟨⟩
        obtain ⟨held, -, hpresents⟩ := t.presents
        refine ⟨?_, parsed, hpresents.kind, hpresents.code⟩
        rw [hpresents.kind]
        exact t.machine
    | refused e hinvalid _ =>
        exact ⟨⟨turns, phase, a.reads hinvalid.poisoned htrace⟩, hends.1, fun _ => hlive, by simp⟩
    | dropped hflag _ _ _ =>
        exact ⟨⟨turns, phase, a.reads (Or.inl hflag) htrace⟩, hends.1, fun _ => hlive, by simp⟩

/-- A line is said. The machine follows later, or was ahead. -/
theorem say {line : Bytes} (hdialogue : Dialogue turns phase) (hholds : P phase) (hP : Lasting P)
    (htalks : Talks phase (.said line) phase') (hstanding : Standing core.channel)
    (hsent : written core.channel.trace = said turns)
    (htaken : arrived core.channel.trace = heard turns ++ core.channel.unreadBytes)
    (hlive : ¬ core.Poisoned) :
    Action.Post (SessionCore.writeAt line) core fun o core' =>
      (o.Failed → Conducted P core' ∧ core'.Poisoned) ∧
      (o = .ok () → ∃ ch, core' = { core with channel := ch } ∧ ∀ machine,
        phase'.Stands machine →
          Conducted P { core with channel := ch, machine := machine }) := by
  apply Action.Post.mono (writeAt_cases hstanding hlive line)
  intro o core' w
  have hline : said [.said line] = line := List.append_nil line
  have hnone : heard [.said line] = [] := rfl
  have hnext := hdialogue.snoc htalks
  have hlast := hP _ _ _ hholds htalks
  constructor
  · intro ho
    refine ⟨⟨_, phase', hnext, hlast, ?_, ?_, fun hlive' => absurd (w.failed ho) hlive'⟩,
      w.failed ho⟩
    · rcases w.trace with htrace | ⟨n, htrace⟩
      · refine Or.inr ⟨turns, line, 0, rfl, ?_⟩
        rw [htrace, hsent, List.take_zero, List.append_nil]
      · refine Or.inr ⟨turns, line, n, rfl, ?_⟩
        rw [htrace, written_append, written_wrote, hsent]
    · rw [heard_append, hnone, List.append_nil]
      rcases w.trace with htrace | ⟨n, htrace⟩
      · rw [htrace, htaken]
        exact List.prefix_append _ _
      · rw [htrace, arrived_append, arrived_wrote, List.append_nil, htaken]
        exact List.prefix_append _ _
  · intro hok
    obtain ⟨ch, rfl, hstanding', -, htrace, hunread⟩ := w.sent hok
    refine ⟨ch, rfl, fun machine hstands => ?_⟩
    have hsent' : written ch.trace = said (turns ++ [.said line]) := by
      rw [htrace, written_append, written_wrote, hsent, said_append, hline]
    have htaken' : arrived ch.trace = heard (turns ++ [.said line]) ++ ch.unreadBytes := by
      rw [htrace, arrived_append, arrived_wrote, List.append_nil, htaken, heard_append, hnone,
        List.append_nil, hunread]
    refine ⟨_, phase', hnext, hlast, ?_, ?_, fun _ => ⟨hstanding', hsent', htaken', hstands⟩⟩
    · exact Or.inl hsent'
    · show heard (turns ++ [.said line]) <+: arrived ch.trace
      rw [htaken']
      exact List.prefix_append _ _

end Accounts

/-! ## §5  Operations -/

section Operations

open Assuan.Action

variable {P : TalkPhase → Prop} {core core' : SessionCore}

/-- Conducted, and in the state `wanted` unless it is poisoned. -/
def InState (P : TalkPhase → Prop) (wanted : ClientState) (core : SessionCore) : Prop :=
  Conducted P core ∧ (¬ core.Poisoned → core.machine.state = wanted)

theorem conducted_check : Keeps (Conducted P) check := keeps_check_of fun _ h => h.invalidate

/-- After both checks the session is live and in the state. -/
theorem checked_state (wanted : ClientState) {α : Type} {rest : Action SessionCore ClientError α}
    {I : SessionCore → Prop} (hinvalid : ∀ core, I core → I core.invalidate)
    (hrest : ∀ core, I core → ¬ core.Poisoned → core.machine.state = wanted → I (rest core).2) :
    Keeps I (check >>= fun _ => requireState wanted >>= fun _ => rest) := by
  intro core h
  by_cases hlive : core.Poisoned
  · rw [bind_failed hlive.check (by simp)]
    exact hinvalid core h
  · rw [bind_ok (check_ok hlive)]
    by_cases hstate : core.machine.state = wanted
    · rw [bind_ok (requireState_ok hstate)]
      exact hrest core h hlive hstate
    · rw [bind_failed (requireState_err hstate) (by simp)]
      exact hinvalid core h

theorem keeps_read_ready (hP : Lasting P) : Keeps (InState P .ready) SessionCore.read := by
  rintro core ⟨h, hready⟩
  rcases hrun : SessionCore.read core with ⟨o, core'⟩
  have l := (h.read hP fun hlive => by rw [hready hlive]; simp).elim hrun
  refine ⟨l.conducted, fun hlive' => ?_⟩
  have hok := mt l.failed hlive'
  have hlive := l.live hok
  obtain ⟨received, rfl⟩ := Outcome.ok_of_not_failed hok
  -- in `Ready` a line leaves the machine alone
  have hsame := ClientMachine.receive_of_ready (hready hlive) (l.received received rfl).1
  rw [hsame]
  exact hready hlive

theorem keeps_drain_ready (hP : Lasting P) (fuel : ℕ) : Keeps (InState P .ready) (drain fuel) := by
  induction fuel with
  | zero => exact keeps_lift _
  | succ fuel ih =>
      rw [drain]
      refine keeps_get.bind ?_
      intro core
      split
      · exact (keeps_read_ready hP).bind fun _ => ih
      · exact keeps_pure ()

/-- The end of `command_with`. -/
theorem conducted_send_command (hP : Lasting P) {command : Command} {bytes : Bytes}
    (hbytes : encoded (encodeCommand command) = .ok bytes) (sensitivity : Sensitivity)
    (h : InState P .ready core) :
    Conducted P ((do
      Action.modify fun core => { core with sensitivity := sensitivity }
      beginCommand
      Action.modify fun core => { core with log := core.log ++ [.command command] }
      SessionCore.writeAt bytes : Action SessionCore ClientError Unit) core).2 := by
  obtain ⟨h, hready⟩ := h
  by_cases hlive : core.Poisoned
  · -- nothing is written
    have hkept : Keeps (fun c => c.Poisoned ∧ c.channel.trace = core.channel.trace)
        (do
          Action.modify fun core => { core with sensitivity := sensitivity }
          beginCommand
          Action.modify fun core => { core with log := core.log ++ [.command command] }
          SessionCore.writeAt bytes : Action SessionCore ClientError Unit) := by
      refine Keeps.bind (fun c hc => hc) ?_
      intro _
      refine Keeps.bind ?_ ?_
      · rintro c ⟨hpoisoned, htrace⟩
        refine ⟨?_, htrace⟩
        rcases hpoisoned with hflag | hstate | hstate
        · exact Or.inl hflag
        · exact Or.inr (Or.inl (by simp [beginCommand, ClientMachine.beginCommand, hstate]))
        · exact Or.inr (Or.inr (by simp [beginCommand, ClientMachine.beginCommand, hstate]))
      · intro _
        refine Keeps.bind (fun c hc => hc) ?_
        rintro _ c ⟨hpoisoned, htrace⟩
        rw [hpoisoned.writeAt]
        exact ⟨poisoned_invalidate c, htrace⟩
    have hend := hkept core ⟨hlive, rfl⟩
    exact h.of_poisoned hend.1 hend.2
  · obtain ⟨turns, phase, a⟩ := h
    have r := a.live hlive
    have hstate := hready hlive
    obtain rfl := r.stands.idle hstate
    have hwrite : ∀ before : SessionCore, before.channel = core.channel →
        before.ioUncertain = core.ioUncertain → before.machine.state = .command →
        Conducted P (SessionCore.writeAt bytes before).2 := by
      intro before hchannel hflag hcommand
      obtain ⟨hstanding, hsent, htaken, -⟩ := r
      rw [← hchannel] at hstanding hsent htaken
      have hopen : ¬ before.Poisoned :=
        live_of_certain (hflag.trans (certain_of_live hlive)) (by rw [hcommand]; simp)
      rcases hrun : SessionCore.writeAt bytes before with ⟨o, core'⟩
      obtain ⟨hfail, hok⟩ := (say a.dialogue a.holds hP (.commands command hbytes) hstanding hsent
        htaken hopen).elim hrun
      rcases o.ok_or_failed with ⟨u, rfl⟩ | ho
      · obtain ⟨ch, rfl, hconducted⟩ := hok rfl
        exact hconducted _ hcommand
      · exact (hfail ho).1
    have hbegin := beginCommand_ready { core with sensitivity := sensitivity } hstate
    rw [bind_ok (modify_apply _ core), bind_ok hbegin, bind_ok (modify_apply _ _)]
    exact hwrite _ rfl rfl rfl

theorem conducted_commandWith (hP : Lasting P) (command : Command) (sensitivity : Sensitivity) :
    Keeps (Conducted P) (commandWith command sensitivity) := by
  unfold commandWith
  refine checked_state .ready (fun _ (h : Conducted P _) => h.invalidate) ?_
  intro core h hlive hstate
  cases hbytes : encoded (encodeCommand command) with
  | ok bytes =>
      rw [Outcome.mapErr_ok, lift_ok_bind, bind_ok (get_apply core)]
      rcases deadline_cases core core.commandTimeout with
        ⟨horizon, hdeadline⟩ | ⟨e, horizon, hdeadline⟩
      · have hready : InState P .ready { core with horizon := horizon } :=
          ⟨h.same rfl rfl rfl, fun _ => hstate⟩
        rw [bind_ok hdeadline]
        rcases hrun : drain (core.channel.supply + 1) { core with horizon := horizon } with
          ⟨o, core₁⟩
        have hdrained := keeps_drain_ready hP (core.channel.supply + 1) _ hready
        rw [hrun] at hdrained
        rcases o.ok_or_failed with ⟨u, rfl⟩ | ho
        · rw [bind_ok hrun]
          exact conducted_send_command hP hbytes sensitivity hdrained
        · rw [bind_failed hrun ho]
          exact hdrained.1
      · rw [bind_failed hdeadline (by simp)]
        exact h.same rfl rfl rfl
  | _ => exact h

/-! ### Events -/

/-- A greeting that was completed by `OK` has led to `Ready`. -/
def Settles (s : SessionCore × Completion) : Prop :=
  s.2 = .success → ¬ s.1.Poisoned → s.1.machine.state = .ready

theorem Conducted.readEvent (hP : Lasting P) (fuel : ℕ) (h : Conducted P core)
    (hopen : ¬ core.Poisoned → core.machine.state ≠ .inquiry) :
    Post (Transaction.readEvent fuel) core fun o core' => Conducted P core' ∧
      ∀ received, o = .ok received → (received.kind = .ok → core'.machine.state = .ready) ∧
        ∃ parsed : ServerLine, received.kind = parsed.kind ∧ received.code = parsed.code := by
  induction fuel generalizing core with
  | zero => exact ⟨h, by simp [Transaction.readEvent]⟩
  | succ fuel ih =>
      rw [Transaction.readEvent]
      apply Post.bind (h.read hP hopen)
      · rintro received core₁ l
        obtain ⟨hmachine, hparsed⟩ := l.received received rfl
        by_cases hempty : received.kind = .empty
        · rw [if_neg (by simpa using hempty)]
          rw [hempty] at hmachine
          apply ih l.conducted
          intro _
          rw [ClientMachine.receive_empty hmachine]
          exact hopen (l.live (by simp))
        · rw [if_pos hempty]
          refine ⟨l.conducted, ?_⟩
          rintro _ ⟨⟩
          refine ⟨fun hok => ?_, hparsed⟩
          rw [hok] at hmachine
          exact ClientMachine.receive_ok hmachine
      · rintro o core₁ ho l
        exact ⟨l.conducted, fun received hok => absurd hok (ho.relabel received)⟩

theorem conducted_newInquiry (received : Received) :
    Keeps (Conducted P) (Transaction.newInquiry received) := by
  have hallocate : Keeps (Conducted P) Transaction.allocate := fun core h => h.same rfl rfl rfl
  have hinstant : Keeps (Conducted P) checkedInstant := fun core h => h.same rfl rfl rfl
  refine Keeps.onError (fun core h => h.invalidate) ?_
  refine hallocate.bind ?_
  intro _
  refine keeps_get.bind ?_
  intro core
  refine (keeps_lift _).bind ?_
  intro line
  refine (keeps_lift _).bind ?_
  intro keyword
  refine (keeps_lift _).bind ?_
  intro metadata
  refine (keeps_lift _).bind ?_
  intro args
  refine (keeps_lift _).bind ?_
  intro metadata'
  refine hinstant.bind ?_
  intro _
  exact keeps_pure _

/-- An event that is no inquiry leaves the session as it is. -/
theorem keeps_plainEvent (I : SessionCore → Prop) (received : Received) :
    Keeps I (Transaction.plainEvent received) := by
  refine keeps_get.bind ?_
  intro core
  refine (keeps_lift _).bind ?_
  intro line
  refine (keeps_lift _).bind ?_
  intro payload
  exact keeps_lift _

theorem conducted_makeEvent (received : Received) :
    Keeps (Conducted P) (Transaction.makeEvent received) := by
  unfold Transaction.makeEvent
  split
  · exact (conducted_newInquiry received).bind fun _ => keeps_pure _
  · exact keeps_plainEvent _ received

theorem eventOf_ne_inquire {received : Received} {line : Bytes} {payload : PayloadRef}
    (inquiry : Inquiry) : Transaction.eventOf received line payload ≠ .ok (.inquire inquiry) := by
  unfold Transaction.eventOf
  cases received.kind with
  | status =>
      intro h
      obtain ⟨keyword, -, h⟩ := Outcome.bind_eq_ok.mp h
      obtain ⟨text, -, h⟩ := Outcome.bind_eq_ok.mp h
      exact absurd (Outcome.ok.inj h) (by simp)
  | _ => simp

theorem makeEvent_inquire {received : Received} {inquiry : Inquiry}
    (h : Transaction.makeEvent received core = (.ok (.inquire inquiry), core')) :
    received.kind = .inquire := by
  by_contra hkind
  rw [Transaction.makeEvent, if_neg hkind] at h
  obtain ⟨_, _, -, h⟩ := bind_eq_ok.mp h
  obtain ⟨line, _, -, h⟩ := bind_eq_ok.mp h
  obtain ⟨payload, _, -, h⟩ := bind_eq_ok.mp h
  exact eventOf_ne_inquire inquiry (Prod.mk.inj h).1

/-- What `next` comes to. -/
structure Advanced (P : TalkPhase → Prop) (start : SessionCore × Completion)
    (o : Outcome ClientError (Option Event)) (s : SessionCore × Completion) : Prop where
  conducted : Conducted P s.1
  settles : Settles start → Settles s
  pending : ∀ inquiry, o = .ok (some (.inquire inquiry)) → s.2 = .pending

theorem completionOf_success {received : Received} {parsed : ServerLine}
    (hkind : received.kind = parsed.kind) (hcode : received.code = parsed.code)
    (h : Transaction.completionOf received .pending = .success) : received.kind = .ok := by
  unfold Transaction.completionOf at h
  split at h
  · next hfinal =>
      rcases hfinal with hok | herr
      · exact hok
      · cases parsed with
        | err code text =>
            rw [hcode] at h
            exact absurd h (by simp [ServerLine.code])
        | _ => exact absurd (herr.symm.trans hkind) (by simp [ServerLine.kind])
  · exact absurd h (by simp)

theorem Conducted.next (hP : Lasting P) (completion : Completion) (h : Conducted P core) :
    Post Transaction.next (core, completion) (Advanced P (core, completion)) := by
  unfold Transaction.next
  by_cases hlive : core.Poisoned
  · apply Post.bind_failed (zoom_apply hlive.check) (by simp)
    exact ⟨h.invalidate, fun _ _ hlive' => absurd (poisoned_invalidate core) hlive',
      by simp [Outcome.relabel]⟩
  apply Post.bind_ok (onCore_ok (check_ok hlive))
  by_cases hinquiry : core.machine.state = .inquiry
  · have hrefuse : Transaction.refuseInquiry core = (.err (.state .notReady), core.invalidate) :=
      if_pos hinquiry
    apply Post.bind_failed (zoom_apply hrefuse) (by simp)
    exact ⟨h.invalidate, fun _ _ hlive' => absurd (poisoned_invalidate core) hlive',
      by simp [Outcome.relabel]⟩
  have hpass : Transaction.refuseInquiry core = (.ok (), core) := if_neg hinquiry
  apply Post.bind_ok (onCore_ok hpass)
  apply Post.get_bind
  by_cases hdone : completion ≠ .pending
  · rw [if_pos hdone]
    exact ⟨h, id, by simp⟩
  rw [if_neg hdone]
  obtain rfl : completion = .pending := by simpa using hdone
  unfold Transaction.readNext
  apply Post.get_bind
  rcases hread : Transaction.readEvent (core.channel.supply + 1) core with ⟨o, core₁⟩
  obtain ⟨hconducted, hreceived⟩ :=
    (Conducted.readEvent hP (core.channel.supply + 1) h fun _ => hinquiry).elim hread
  rcases o.ok_or_failed with ⟨received, rfl⟩ | ho
  · obtain ⟨hready, parsed, hkind, hcode⟩ := hreceived received rfl
    apply Post.bind_ok (zoom_apply hread)
    apply Post.bind_ok (modify_apply _ _)
    rcases hmake : Transaction.makeEvent received core₁ with ⟨o', core₂⟩
    have hkept := conducted_makeEvent received core₁ hconducted
    rw [hmake] at hkept
    have hsettled : Settles (core₂, Transaction.completionOf received .pending) := by
      intro hsuccess _
      have hok := completionOf_success hkind hcode hsuccess
      have hsame := keeps_plainEvent (· = core₁) received core₁ rfl
      rw [Transaction.makeEvent, if_neg (by rw [hok]; simp)] at hmake
      rw [hmake] at hsame
      obtain rfl : core₂ = core₁ := hsame
      exact hready hok
    rcases o'.ok_or_failed with ⟨event, rfl⟩ | ho'
    · apply Post.bind_ok (zoom_apply hmake)
      refine ⟨hkept, fun _ => hsettled, ?_⟩
      rintro inquiry hevent
      obtain rfl := Option.some.inj (Outcome.ok.inj hevent)
      simp [Transaction.completionOf, makeEvent_inquire hmake]
    · apply Post.bind_failed (zoom_apply hmake) ho'
      exact ⟨hkept, fun _ => hsettled, fun inquiry hok => absurd hok (ho'.relabel _)⟩
  · apply Post.bind_failed (zoom_apply hread) ho
    exact ⟨hconducted, fun _ hsuccess => absurd hsuccess (by simp),
      fun inquiry hok => absurd hok (ho.relabel _)⟩

/-! ### Inquiries -/

/-- A data line answers. -/
theorem keeps_answer (hP : Lasting P) {data piece : Bytes} (hpiece : piece ∈ pieces data) :
    Keeps (InState P .inquiry) (SessionCore.writeAt (dataLine piece)) := by
  rintro core ⟨h, hinquiry⟩
  by_cases hlive : core.Poisoned
  · rw [hlive.writeAt]
    exact ⟨h.invalidate, fun hlive' => absurd (poisoned_invalidate core) hlive'⟩
  · obtain ⟨turns, phase, a⟩ := h
    have r := a.live hlive
    obtain ⟨op, rfl, horigin⟩ := r.stands.asked (hinquiry hlive)
    rcases hrun : SessionCore.writeAt (dataLine piece) core with ⟨o, core'⟩
    obtain ⟨hfail, hok⟩ := (say a.dialogue a.holds hP (.answers op hpiece) r.standing r.sent
      r.taken hlive).elim hrun
    rcases o.ok_or_failed with ⟨u, rfl⟩ | ho
    · obtain ⟨ch, rfl, hconducted⟩ := hok rfl
      exact ⟨hconducted core.machine ⟨hinquiry hlive, horigin⟩, fun _ => hinquiry hlive⟩
    · obtain ⟨hconducted, hpoisoned⟩ := hfail ho
      exact ⟨hconducted, fun hlive' => absurd hpoisoned hlive'⟩

/-- The operations of an inquiry start with the same checks. -/
theorem checked_inquiry {γ α : Type} {rest : Action (SessionCore × γ) ClientError α}
    (hrest : ∀ s : SessionCore × γ, Conducted P s.1 → ¬ s.1.Poisoned →
      s.1.machine.state = .inquiry → Conducted P (rest s).2.1) :
    Keeps (fun s => Conducted P s.1) (onCore Inquiry.check >>= fun _ => rest) := by
  intro s h
  by_cases hlive : s.1.Poisoned
  · have hfail : onCore Inquiry.check s = (.err (.state .unusable), (s.1.invalidate, s.2)) :=
      zoom_apply (Caller.checkInquiry_poisoned hlive)
    rw [bind_failed hfail (by simp)]
    exact h.invalidate
  · by_cases hstate : s.1.machine.state = .inquiry
    · have hcheck : Inquiry.check s.1 = (.ok (), s.1) := by
        rw [Inquiry.check, bind_ok (check_ok hlive)]
        exact requireState_ok hstate
      rw [bind_ok (onCore_ok hcheck)]
      exact hrest s h hlive hstate
    · have hcheck : Inquiry.check s.1 = (.err (.state .notReady), s.1.invalidate) := by
        rw [Inquiry.check, bind_ok (check_ok hlive)]
        exact requireState_err hstate
      have hfail : onCore Inquiry.check s = (.err (.state .notReady), (s.1.invalidate, s.2)) :=
        zoom_apply hcheck
      rw [bind_failed hfail (by simp)]
      exact h.invalidate

theorem conducted_send (hP : Lasting P) (bytes : Bytes) :
    Keeps (fun s : SessionCore × Inquiry => Conducted P s.1) (Inquiry.send bytes) := by
  unfold Inquiry.send
  refine checked_inquiry ?_
  rintro ⟨core, inquiry⟩ h hlive hstate
  have hstream : Keeps (InState P .inquiry)
      (streamData SessionCore.writeAt ClientError.protocol (bytes.length + 1) bytes) := by
    rw [streamData_eq]
    refine Keeps.forEach fun line hline => ?_
    obtain ⟨piece, hpiece, rfl⟩ := List.mem_map.mp hline
    exact keeps_answer hP hpiece
  have hafter : ∀ total, Keeps (fun s : SessionCore × Inquiry => InState P .inquiry s.1) (do
      onCore (streamData SessionCore.writeAt ClientError.protocol (bytes.length + 1) bytes)
      Action.modify fun s => (s.1, { s.2 with sent := total })) := by
    intro total
    refine Keeps.bind (fun s hs => hstream s.1 hs) ?_
    intro _ s hs
    exact hs
  cases hcharge : (checkedAdd usizeMax inquiry.sent bytes.length).filter
      (· ≤ core.maxInquiryBytes) with
  | none =>
      have hrun : Inquiry.charge bytes (core, inquiry) =
          (.err (.limit .capacityExceeded), (core.invalidate, inquiry)) := by
        simp only [Inquiry.charge, hcharge]
      rw [bind_failed hrun (by simp)]
      exact h.invalidate
  | some total =>
      have hrun : Inquiry.charge bytes (core, inquiry) = (.ok total, (core, inquiry)) := by
        simp only [Inquiry.charge, hcharge]
      rw [bind_ok hrun]
      exact (hafter total (core, inquiry) ⟨h, fun _ => hstate⟩).1

theorem conducted_complete (hP : Lasting P) (cancelled : Bool) :
    Keeps (fun s : SessionCore × Inquiry => Conducted P s.1) (Inquiry.complete cancelled) := by
  unfold Inquiry.complete
  refine checked_inquiry ?_
  rintro ⟨core, inquiry⟩ ⟨turns, phase, a⟩ hlive hstate
  dsimp only at a hlive hstate
  have r := a.live hlive
  obtain ⟨op, rfl, horigin⟩ := r.stands.asked hstate
  -- the phase that the machine comes to is that after the terminator
  obtain ⟨phase', htalks, hstands⟩ : ∃ phase' : TalkPhase,
      Talks (.asked op) (.said (Inquiry.terminator cancelled)) phase' ∧
      phase'.Stands { core.machine with
        state := if cancelled then .awaitFinal else core.machine.inquiryOrigin } := by
    cases cancelled with
    | false => exact ⟨.running op, .ends op, horigin⟩
    | true => exact ⟨.cancelled op, .cancels op, rfl, horigin⟩
  rcases hrun : SessionCore.writeAt (Inquiry.terminator cancelled) core with ⟨o, core'⟩
  obtain ⟨hfail, hok⟩ :=
    (say a.dialogue a.holds hP htalks r.standing r.sent r.taken hlive).elim hrun
  rcases o.ok_or_failed with ⟨u, rfl⟩ | ho
  · obtain ⟨ch, rfl, hconducted⟩ := hok rfl
    have hfinish : Inquiry.finishInquiry cancelled { core with channel := ch } =
        (.ok (), { core with
          channel := ch
          machine := { core.machine with
            state := if cancelled then .awaitFinal else core.machine.inquiryOrigin } }) := by
      have hmachine : core.machine.finishInquiry cancelled = (.ok (), { core.machine with
          state := if cancelled then .awaitFinal else core.machine.inquiryOrigin }) := by
        rw [ClientMachine.finishInquiry, hstate]
      rw [Inquiry.finishInquiry, hmachine]
      rfl
    rw [bind_ok (onCore_ok hrun), bind_ok (onCore_ok hfinish)]
    exact hconducted _ hstands
  · have hpart : onCore (SessionCore.writeAt (Inquiry.terminator cancelled)) (core, inquiry) =
        (o, (core', inquiry)) := zoom_apply hrun
    rw [bind_failed hpart ho]
    exact (hfail ho).1

theorem conducted_dropInquiry {s : SessionCore × Inquiry} (h : Conducted P s.1) :
    Conducted P (Inquiry.drop s) := by
  unfold Inquiry.drop
  split
  · exact h
  · exact h.invalidate

theorem conducted_finishInquiry (hP : Lasting P) (cancelled : Bool) (inquiry : Inquiry) :
    Keeps (Conducted P) (Inquiry.finish cancelled inquiry) := fun core h =>
  conducted_dropInquiry (conducted_complete hP cancelled (core, inquiry) h)

/-! ### Transactions -/

theorem conducted_drop (h : Conducted P core) : Conducted P (Transaction.drop core) := by
  unfold Transaction.drop
  split
  · exact h.invalidate
  · exact h

theorem conducted_finish (completion : Completion) :
    Keeps (Conducted P) (Transaction.finish completion) := by
  have hbody : Keeps (Conducted P) (do
      SessionCore.check
      Action.lift (Transaction.resultOf completion) : Action SessionCore ClientError Unit) :=
    conducted_check.bind fun _ => keeps_lift _
  intro core h
  exact conducted_drop (hbody core h)

end Operations

/-! ## §6  Steps of a life -/

namespace Handshake

variable {handshake : Handshake} {core : SessionCore}

theorem onClient_apply {α : Type} {x : Action (SessionCore × Completion) ClientError α}
    {core' : SessionCore} {completion completion' : Completion} {o : Outcome ClientError α}
    {error : Option ClientError} (hx : x (core, completion) = (o, (core', completion'))) :
    onClient x ⟨some core, completion, error⟩ = (o, ⟨some core', completion', error⟩) := by
  show ((x (core, completion)).1, (⟨some (x (core, completion)).2.1,
    (x (core, completion)).2.2, error⟩ : Handshake)) = _
  rw [hx]

/-- An error of the options is reported, and the session is invalidated. -/
theorem next_of_error {e : ClientError} (hclient : handshake.client = some core)
    (herror : handshake.error = some e) : handshake.next =
      (.err e, ⟨some core.invalidate, handshake.completion, none⟩) := by
  obtain ⟨client, completion, error⟩ := handshake
  obtain rfl : client = some core := hclient
  obtain rfl : error = some e := herror
  rfl

theorem next_of_client (hclient : handshake.client = some core) (herror : handshake.error = none) :
    handshake.next = ((Transaction.next (core, handshake.completion)).1,
      ⟨some (Transaction.next (core, handshake.completion)).2.1,
        (Transaction.next (core, handshake.completion)).2.2, none⟩) := by
  obtain ⟨client, completion, error⟩ := handshake
  obtain rfl : client = some core := hclient
  obtain rfl : error = none := herror
  rfl

/-- Only a live session that was greeted is released. -/
theorem finish_cases (hclient : handshake.client = some core) :
    (∃ e core' completion, handshake.finish = (.err e, ⟨some core', completion, none⟩) ∧
      (core' = core ∨ core' = core.invalidate)) ∨
    handshake.error = none ∧ ¬ core.Poisoned ∧ handshake.completion = .success ∧
      ∃ after, handshake.finish = (.ok core, after) := by
  obtain ⟨client, completion, error⟩ := handshake
  obtain rfl : client = some core := hclient
  cases error with
  | some e => exact Or.inl ⟨e, core, completion, rfl, Or.inl rfl⟩
  | none =>
      have htake : takeError ⟨some core, completion, none⟩ =
          (.ok (), ⟨some core, completion, none⟩) := rfl
      unfold finish
      rw [Action.bind_ok htake]
      by_cases hlive : core.Poisoned
      · have hcheck : onClient (onCore SessionCore.check) ⟨some core, completion, none⟩ =
            (.err (.state .unusable), ⟨some core.invalidate, completion, none⟩) :=
          onClient_apply (Action.zoom_apply hlive.check)
        rw [Action.bind_failed hcheck (by simp)]
        exact Or.inl ⟨_, core.invalidate, completion, rfl, Or.inr rfl⟩
      · have hcheck : onClient (onCore SessionCore.check) ⟨some core, completion, none⟩ =
            (.ok (), ⟨some core, completion, none⟩) :=
          onClient_apply (onCore_ok (check_ok hlive))
        rw [Action.bind_ok hcheck, Action.bind_ok (Action.get_apply _)]
        cases completion with
        | success => exact Or.inr ⟨rfl, hlive, rfl, _, rfl⟩
        | _ => exact Or.inl ⟨_, core, _, rfl, Or.inl rfl⟩

end Handshake

namespace Life

variable {life life' : Life} {clientStep : ClientStep} {o : Outcome ClientError Unit}

/-- What holds of a life. -/
inductive Proper : Life → Prop
  | greeting {handshake : Handshake} {core : SessionCore} : handshake.client = some core →
      Conducted (fun _ => True) core → Settles (core, handshake.completion) →
      Proper (.greeting handshake)
  | answering {handshake : Handshake} {core : SessionCore} (inquiry : Inquiry) :
      handshake.client = some core → Conducted (fun _ => True) core →
      handshake.completion = .pending → Proper (.answering handshake inquiry)
  | client {caller : Caller} : Conducted TalkPhase.Opened caller.core → Proper (.client caller)
  | gone {handshake : Handshake} {core : SessionCore} : handshake.client = some core →
      Conducted (fun _ => True) core → Proper (.gone handshake)

theorem conducted_step {caller caller' : Caller} (h : Conducted TalkPhase.Opened caller.core)
    (hstep : Caller.Stepped caller clientStep o caller') :
    Conducted TalkPhase.Opened caller'.core := by
  have hP := lasting_opened
  cases hstep with
  | command core command sensitivity => exact conducted_commandWith hP command sensitivity core h
  | next core completion => exact (Conducted.next hP completion h).conducted
  | finish core completion => exact conducted_finish completion core h
  | dropTransaction core completion => exact conducted_drop h
  | forgetTransaction core completion => exact h
  | send core completion inquiry bytes => exact conducted_send hP bytes (core, inquiry) h
  | complete core completion inquiry cancelled =>
      exact conducted_finishInquiry hP cancelled inquiry core h
  | dropInquiry core completion inquiry => exact @conducted_dropInquiry _ (core, inquiry) h
  | forgetInquiry core completion inquiry => exact h

theorem Proper.step (h : Proper life) (hstep : life.step clientStep = some (o, life')) :
    Proper life' := by
  cases h with
  | @greeting handshake core hclient hconducted hsettles =>
      cases clientStep with
      | next =>
          obtain ⟨-, rfl⟩ := Prod.mk.inj (Option.some.inj hstep)
          cases herror : handshake.error with
          | some e =>
              rw [Handshake.next_of_error hclient herror]
              exact .greeting rfl hconducted.invalidate
                fun _ hlive => absurd (poisoned_invalidate core) hlive
          | none =>
              rw [Handshake.next_of_client hclient herror]
              rcases hrun : Transaction.next (core, handshake.completion) with
                ⟨r, core', completion⟩
              have a := (Conducted.next lasting_true handshake.completion hconducted).elim hrun
              have hgreeting : Proper (.greeting ⟨some core', completion, none⟩) :=
                .greeting rfl a.conducted (a.settles hsettles)
              unfold after
              split
              · next inquiry hr =>
                  exact .answering inquiry rfl a.conducted (a.pending inquiry hr)
              · exact hgreeting
      | finish =>
          obtain ⟨-, rfl⟩ := Prod.mk.inj (Option.some.inj hstep)
          rcases Handshake.finish_cases hclient with
            ⟨e, core', completion, hrun, hcore⟩ | ⟨-, hlive, hsuccess, after, hrun⟩
          · rw [hrun]
            refine .gone rfl ?_
            rcases hcore with rfl | rfl
            · exact hconducted
            · exact hconducted.invalidate
          · rw [hrun]
            refine .client ?_
            -- the machine is ready, so the greeting is over
            obtain ⟨turns, phase, a⟩ := hconducted
            obtain rfl := (a.live hlive).stands.idle (hsettles hsuccess hlive)
            exact ⟨turns, .idle, a.dialogue, trivial, a.sent, a.taken, a.live⟩
      | dropTransaction =>
          obtain ⟨-, rfl⟩ := Prod.mk.inj (Option.some.inj hstep)
          exact .gone hclient hconducted
      | _ => exact absurd hstep (by simp [Life.step])
  | @answering handshake core inquiry hclient hconducted hpending =>
      cases clientStep with
      | send bytes =>
          rw [Life.step, hclient] at hstep
          obtain ⟨-, rfl⟩ := Prod.mk.inj (Option.some.inj hstep)
          exact .answering _ rfl (conducted_send lasting_true bytes (core, inquiry) hconducted)
            hpending
      | complete cancelled =>
          simp only [Life.step, onInquiry, hclient, Option.map_some] at hstep
          obtain ⟨-, rfl⟩ := Prod.mk.inj (Option.some.inj hstep)
          exact .greeting rfl
            (conducted_finishInquiry lasting_true cancelled inquiry core hconducted)
            fun hsuccess => absurd (hpending.symm.trans hsuccess) (by simp)
      | dropInquiry =>
          simp only [Life.step, onInquiry, hclient, Option.map_some] at hstep
          obtain ⟨-, rfl⟩ := Prod.mk.inj (Option.some.inj hstep)
          exact .greeting rfl (@conducted_dropInquiry _ (core, inquiry) hconducted)
            fun hsuccess => absurd (hpending.symm.trans hsuccess) (by simp)
      | forgetInquiry =>
          obtain ⟨-, rfl⟩ := Prod.mk.inj (Option.some.inj hstep)
          exact .greeting hclient hconducted
            fun hsuccess => absurd (hpending.symm.trans hsuccess) (by simp)
      | _ => exact absurd hstep (by simp [Life.step])
  | @client caller hconducted =>
      obtain ⟨⟨o', caller'⟩, hcaller, heq⟩ := Option.map_eq_some_iff.mp hstep
      obtain ⟨-, rfl⟩ := Prod.mk.inj heq
      exact .client (conducted_step hconducted (Caller.stepped_of_step hcaller))
  | gone hclient hconducted => exact absurd hstep (by cases clientStep <;> simp [Life.step])

/-- A session that was refused by its options: nothing goes through its stream. -/
inductive Barred : Life → Prop
  | greeting {handshake : Handshake} {core : SessionCore} : handshake.client = some core →
      core.channel.trace = [] → handshake.error ≠ none ∨ core.Poisoned →
      Barred (.greeting handshake)
  | gone {handshake : Handshake} {core : SessionCore} : handshake.client = some core →
      core.channel.trace = [] → Barred (.gone handshake)

theorem Barred.step (h : Barred life) (hstep : life.step clientStep = some (o, life')) :
    Barred life' := by
  cases h with
  | @greeting handshake core hclient htrace hbarred =>
      cases clientStep with
      | next =>
          obtain ⟨-, rfl⟩ := Prod.mk.inj (Option.some.inj hstep)
          cases herror : handshake.error with
          | some e =>
              rw [Handshake.next_of_error hclient herror]
              exact .greeting rfl htrace (Or.inr (poisoned_invalidate core))
          | none =>
              have hpoisoned := hbarred.resolve_left (not_not.mpr herror)
              have hrefused : Transaction.next (core, handshake.completion) =
                  (.err (.state .unusable), (core.invalidate, handshake.completion)) :=
                Caller.refused_onCore hpoisoned.check _ _
              rw [Handshake.next_of_client hclient herror, hrefused]
              exact .greeting rfl htrace (Or.inr (poisoned_invalidate core))
      | finish =>
          obtain ⟨-, rfl⟩ := Prod.mk.inj (Option.some.inj hstep)
          rcases Handshake.finish_cases hclient with
            ⟨e, core', completion, hrun, hcore⟩ | ⟨herror, hlive, -, -⟩
          · rw [hrun]
            rcases hcore with rfl | rfl
            · exact .gone rfl htrace
            · exact .gone rfl htrace
          · rcases hbarred with h | h
            · exact absurd herror h
            · exact absurd h hlive
      | dropTransaction =>
          obtain ⟨-, rfl⟩ := Prod.mk.inj (Option.some.inj hstep)
          exact .gone hclient htrace
      | _ => exact absurd hstep (by simp [Life.step])
  | gone hclient htrace => exact absurd hstep (by cases clientStep <;> simp [Life.step])

/-- Poisoned, with all that has gone through the stream. -/
def Dead (trace : List Io) (life : Life) : Prop :=
  ∃ core, life.core = some core ∧ core.Poisoned ∧ core.channel.trace = trace

theorem Dead.of_kept {trace : List Io} {core core' : SessionCore} (hcore : life.core = some core')
    (h : Caller.Kept core core') (htrace : core.channel.trace = trace) : Dead trace life :=
  ⟨core', hcore, h.1, h.2.trans htrace⟩

theorem Dead.step {trace : List Io} (h : Dead trace life)
    (hstep : life.step clientStep = some (o, life')) : Dead trace life' := by
  obtain ⟨core, hcore, hpoisoned, htrace⟩ := h
  have hinvalidated := Caller.kept_invalidate core
  cases life with
  | greeting handshake =>
      have hclient : handshake.client = some core := hcore
      cases clientStep with
      | next =>
          obtain ⟨-, rfl⟩ := Prod.mk.inj (Option.some.inj hstep)
          cases herror : handshake.error with
          | some e =>
              rw [Handshake.next_of_error hclient herror]
              exact .of_kept rfl hinvalidated htrace
          | none =>
              have hrefused : Transaction.next (core, handshake.completion) =
                  (.err (.state .unusable), (core.invalidate, handshake.completion)) :=
                Caller.refused_onCore hpoisoned.check _ _
              rw [Handshake.next_of_client hclient herror, hrefused]
              exact .of_kept rfl hinvalidated htrace
      | finish =>
          obtain ⟨-, rfl⟩ := Prod.mk.inj (Option.some.inj hstep)
          rcases Handshake.finish_cases hclient with
            ⟨e, core', completion, hrun, hkept⟩ | ⟨-, hlive, -, -⟩
          · rw [hrun]
            rcases hkept with rfl | rfl
            · exact ⟨core', rfl, hpoisoned, htrace⟩
            · exact .of_kept rfl hinvalidated htrace
          · exact absurd hpoisoned hlive
      | dropTransaction =>
          obtain ⟨-, rfl⟩ := Prod.mk.inj (Option.some.inj hstep)
          exact ⟨core, hclient, hpoisoned, htrace⟩
      | _ => exact absurd hstep (by simp [Life.step])
  | answering handshake inquiry =>
      have hclient : handshake.client = some core := hcore
      -- the operations of an inquiry are steps of a caller
      have hkept : ∀ {clientStep o caller'}, Caller.Stepped ⟨core, .inquiry .pending inquiry⟩
          clientStep o caller' → Caller.Kept core caller'.core :=
        fun hstep => Caller.step_poisoned hpoisoned hstep
      cases clientStep with
      | send bytes =>
          simp only [Life.step, hclient, Option.map_some] at hstep
          obtain ⟨-, rfl⟩ := Prod.mk.inj (Option.some.inj hstep)
          exact .of_kept rfl (hkept (.send core .pending inquiry bytes)) htrace
      | complete cancelled =>
          simp only [Life.step, onInquiry, hclient, Option.map_some] at hstep
          obtain ⟨-, rfl⟩ := Prod.mk.inj (Option.some.inj hstep)
          exact .of_kept rfl (hkept (.complete core .pending inquiry cancelled)) htrace
      | dropInquiry =>
          simp only [Life.step, onInquiry, hclient, Option.map_some] at hstep
          obtain ⟨-, rfl⟩ := Prod.mk.inj (Option.some.inj hstep)
          exact .of_kept rfl (hkept (.dropInquiry core .pending inquiry)) htrace
      | forgetInquiry =>
          obtain ⟨-, rfl⟩ := Prod.mk.inj (Option.some.inj hstep)
          exact ⟨core, hclient, hpoisoned, htrace⟩
      | _ => exact absurd hstep (by simp [Life.step])
  | client caller =>
      obtain rfl : caller.core = core := Option.some.inj hcore
      obtain ⟨⟨o', caller'⟩, hcaller, heq⟩ := Option.map_eq_some_iff.mp hstep
      obtain ⟨-, rfl⟩ := Prod.mk.inj heq
      exact .of_kept rfl (Caller.step_poisoned hpoisoned (Caller.stepped_of_step hcaller)) htrace
  | gone handshake => exact absurd hstep (by cases clientStep <;> simp [Life.step])

/-! ## §7  Whole lives -/

section Runs

variable {stream : Stream} {clock horizon allocations : List Bool} {options : ClientOptions}

/-- What the options do to the session before the greeting. -/
theorem validated_kept (options : ClientOptions) (start : SessionCore) :
    Action.Keeps (fun core => ∃ horizon, core = { start with horizon := horizon })
      (Client.validated options) := by
  have hdeadline : ∀ duration, Action.Keeps (fun core => ∃ horizon,
      core = { start with horizon := horizon }) (SessionCore.deadline duration) := by
    rintro duration core ⟨horizon, rfl⟩
    rcases deadline_cases { start with horizon := horizon } duration with
      ⟨horizon', hrun⟩ | ⟨e, horizon', hrun⟩
    · rw [hrun]
      exact ⟨horizon', rfl⟩
    · rw [hrun]
      exact ⟨horizon', rfl⟩
  refine Action.Keeps.bind ?_ fun _ => hdeadline _
  unfold ClientOptions.validate
  split
  · exact Action.keeps_lift _
  · exact Action.Keeps.forEach fun duration _ => hdeadline duration

/-- How a handshake starts. -/
theorem handshake_cases (stream : Stream) (clock horizon allocations : List Bool)
    (options : ClientOptions) : ∃ core error,
      Client.handshake stream clock horizon allocations options = ⟨some core, .pending, error⟩ ∧
      core.channel = Channel.new stream clock ∧ core.machine = .new ∧
      ∀ e, (Client.validated options
        (Client.session stream clock horizon allocations options)).1 = .err e → error = some e := by
  have hkept := validated_kept options (Client.session stream clock horizon allocations options) _
    ⟨horizon, rfl⟩
  unfold Client.handshake
  rcases hrun : Client.validated options
    (Client.session stream clock horizon allocations options) with ⟨o, core⟩
  obtain ⟨horizon', hchanged⟩ := hkept
  obtain rfl := (congrArg Prod.snd hrun).symm.trans hchanged
  cases o with
  | err e => exact ⟨_, some e, rfl, rfl, rfl, fun e' he => congrArg some (Outcome.err.inj he)⟩
  | _ => exact ⟨_, none, rfl, rfl, rfl, by simp⟩

theorem start_proper (stream : Stream) (clock horizon allocations : List Bool)
    (options : ClientOptions) : Proper (start stream clock horizon allocations options) := by
  obtain ⟨core, error, hstart, hchannel, hmachine, -⟩ :=
    handshake_cases stream clock horizon allocations options
  rw [start, hstart]
  refine .greeting rfl ⟨[], .running .greeting, .nil, trivial, ?_, ?_, fun _ => ⟨?_, ?_, ?_, ?_⟩⟩
    fun hsuccess => absurd hsuccess (by simp)
  · rw [hchannel]
    exact Or.inl rfl
  · exact List.nil_prefix
  · rw [hchannel]
    exact standing_new stream clock
  · rw [hchannel]
    rfl
  · rw [hchannel]
    rfl
  · show core.machine.state = .greeting
    rw [hmachine]
    rfl

/-- A step without its outcome. -/
theorem stepped {life life' : Life} {clientStep : ClientStep}
    (h : (life.step clientStep).map Prod.snd = some life') :
    ∃ o, life.step clientStep = some (o, life') := by
  obtain ⟨⟨o, _⟩, hstep, rfl⟩ := Option.map_eq_some_iff.mp h
  exact ⟨o, hstep⟩

theorem run_invariant {I : Life → Prop} {steps : List ClientStep} {life life' : Life} (h : I life)
    (hstep : ∀ {life life' clientStep o}, I life → life.step clientStep = some (o, life') → I life')
    (hrun : life.run steps = some life') : I life' := by
  refine runSteps.invariant h ?_ hrun
  intro life clientStep life' hlife hnow
  obtain ⟨o, ho⟩ := stepped hnow
  exact hstep hlife ho

/-- A life that is proper has a session with its accounts, past the greeting if the
client was released. -/
theorem Proper.accounts (h : Proper life) : ∃ turns phase core, life.core = some core ∧
    Accounted (fun phase => ∀ caller, life = .client caller → phase.Opened) turns phase core := by
  cases h with
  | greeting hclient hconducted _ =>
      obtain ⟨turns, phase, a⟩ := hconducted
      exact ⟨turns, phase, _, hclient, a.dialogue, by simp, a.sent, a.taken, a.live⟩
  | answering inquiry hclient hconducted _ =>
      obtain ⟨turns, phase, a⟩ := hconducted
      exact ⟨turns, phase, _, hclient, a.dialogue, by simp, a.sent, a.taken, a.live⟩
  | client hconducted =>
      obtain ⟨turns, phase, a⟩ := hconducted
      exact ⟨turns, phase, _, rfl, a.dialogue, fun _ _ => a.holds, a.sent, a.taken, a.live⟩
  | gone hclient hconducted =>
      obtain ⟨turns, phase, a⟩ := hconducted
      exact ⟨turns, phase, _, hclient, a.dialogue, by simp, a.sent, a.taken, a.live⟩

theorem Proper.released {handshake : Handshake} {caller : Caller}
    (h : Proper (.greeting handshake))
    (hstep : (Life.greeting handshake).step .finish = some (o, .client caller)) :
    caller.core.isUsable = true := by
  cases h with
  | @greeting _ core hclient hconducted hsettles =>
      obtain ⟨-, hreleased⟩ := Prod.mk.inj (Option.some.inj hstep)
      rcases Handshake.finish_cases hclient with
        ⟨e, core', completion, hrun, -⟩ | ⟨-, hlive, hsuccess, after, hrun⟩
      · rw [hrun] at hreleased
        exact absurd hreleased (by simp [finished])
      · rw [hrun] at hreleased
        obtain rfl := Life.client.inj hreleased
        have hready : core.machine.state = .ready := hsettles hsuccess hlive
        simp [isUsable, certain_of_live hlive, hready]

/-- **A client keeps to the protocol from its first byte on.** Whatever a program does
with the handshake, with the client it may get from it, and with their guards, and
whatever the peer, the clock and the memory do: all that was written is a dialogue of
the grammar, up to a part of the last line, over lines that have arrived. Unless the
session is poisoned, no byte is missing on either side, and the machine is in the phase
of the dialogue. A client is released after the `OK` of its greeting and is usable.
Options that are not valid let nothing through, and a poisoned session is dead. -/
theorem life_disciplined (stream : Stream) (clock horizon allocations : List Bool)
    (options : ClientOptions) (steps : List ClientStep) (life : Life)
    (hrun : (start stream clock horizon allocations options).run steps = some life) :
    (∃ turns phase core, life.core = some core ∧ Dialogue turns phase ∧
      Spoken turns (written core.channel.trace) ∧ heard turns <+: arrived core.channel.trace ∧
      (¬ core.Poisoned → written core.channel.trace = said turns ∧
        arrived core.channel.trace = heard turns ++ core.channel.unreadBytes ∧
        phase.Stands core.machine) ∧
      ∀ caller, life = .client caller → phase.Opened) ∧
    (∀ handshake o caller, life = .greeting handshake →
      life.step .finish = some (o, .client caller) → caller.core.isUsable = true) ∧
    ((∃ e, (Client.validated options
        (Client.session stream clock horizon allocations options)).1 = .err e) →
      (∃ core, life.core = some core ∧ core.channel.trace = []) ∧
        ∀ caller, life ≠ .client caller) ∧
    ∀ core, life.core = some core → core.Poisoned → ∀ steps' later, life.run steps' = some later →
      ∃ core', later.core = some core' ∧ core'.Poisoned ∧
        core'.channel.trace = core.channel.trace := by
  have hproper := run_invariant (start_proper stream clock horizon allocations options)
    Proper.step hrun
  refine ⟨?_, ?_, ?_, ?_⟩
  · obtain ⟨turns, phase, core, hcore, a⟩ := hproper.accounts
    refine ⟨turns, phase, core, hcore, a.dialogue, a.sent, a.taken, ?_, a.holds⟩
    intro hlive
    have r := a.live hlive
    exact ⟨r.sent, r.taken, r.stands⟩
  · rintro handshake o caller rfl hstep
    exact hproper.released hstep
  · rintro ⟨e, he⟩
    obtain ⟨core, error, hstart, hchannel, -, herror⟩ :=
      handshake_cases stream clock horizon allocations options
    have hbarred : Barred (start stream clock horizon allocations options) := by
      rw [start, hstart, herror e he]
      refine .greeting rfl ?_ (Or.inl (by simp))
      rw [hchannel]
      rfl
    cases run_invariant hbarred Barred.step hrun with
    | greeting hclient htrace _ => exact ⟨⟨_, hclient, htrace⟩, by simp⟩
    | gone hclient htrace => exact ⟨⟨_, hclient, htrace⟩, by simp⟩
  · intro core hcore hpoisoned steps' later hlater
    have hdead : Dead core.channel.trace life := ⟨core, hcore, hpoisoned, rfl⟩
    exact run_invariant hdead Dead.step hlater

/-- The program reads the greeting, takes the client and sends a command. -/
def introducing : List ClientStep := [.next, .finish, .command Caller.nop .public_]

def greetingChunk : Chunk := ⟨asBytes "OK hi\n", by decide, by decide⟩

theorem life_disciplined_introducing : ∃ caller turns phase,
    (start ⟨[.data greetingChunk], []⟩ [] [] [] .default).run introducing = some (.client caller) ∧
      Dialogue turns phase ∧ said turns = asBytes "NOP\n" := by
  have hsent : ((start ⟨[.data greetingChunk], []⟩ [] [] [] .default).run introducing).map
      (fun life => match life with
        | .client caller => (caller.core.ioUncertain, caller.core.machine.state,
            written caller.core.channel.trace)
        | _ => (true, .invalid, [])) = some (false, .command, asBytes "NOP\n") := by
    decide +kernel
  obtain ⟨life, hrun, hlife⟩ := Option.map_eq_some_iff.mp hsent
  obtain ⟨⟨turns, phase, core, hcore, hdialogue, -, -, hlive, -⟩, -⟩ :=
    life_disciplined _ _ _ _ _ _ _ hrun
  cases life with
  | client caller =>
      obtain rfl : caller.core = core := Option.some.inj hcore
      obtain ⟨hflag, hrest⟩ := Prod.mk.inj hlife
      obtain ⟨hstate, hwritten⟩ := Prod.mk.inj hrest
      have hsaid := (hlive (live_of_certain hflag (by rw [hstate]; simp))).1
      exact ⟨caller, turns, phase, hrun, hdialogue, hsaid.symm.trans hwritten⟩
  | _ => exact absurd (Prod.mk.inj hlife).1 (by simp)

end Runs

end Life

end Assuan
