import Assuan.Client.Lines

/-!
# What the operations of a client session do

A session is `Poisoned` when its last operation is uncertain or its machine is
invalid. A poisoned session refuses every operation without touching the stream.
Otherwise it is `Sound`: the stream is open, and the machine agrees with the log
of commands and final responses. A read or write takes a sound session to a
sound one or poisons it.
-/

namespace Assuan

open Channel LineBuffer

/-! ## §2  The machine and the log -/

/-- Each command with the code of its final response. -/
abbrev Answers : Type := List (Command × Option UInt32)

/-- The log of commands that were answered once each. -/
def Answers.log (answers : Answers) : List Exchange :=
  answers.flatMap fun answer => [.command answer.1, .final answer.2]

/-- The machine waits for a command exactly when every command is answered. -/
def Phase (machine : ClientMachine) (log : List Exchange) : Prop :=
  match machine.state with
  | .ready => ∃ answers : Answers, log = answers.log
  | .command | .awaitFinal => ∃ (answers : Answers) (command : Command),
      log = answers.log ++ [.command command]
  | .inquiry => machine.inquiryOrigin = .command ∧
      ∃ (answers : Answers) (command : Command), log = answers.log ++ [.command command]
  | _ => False

/-- A line that answers an inquiry. -/
def ReplyLine (line : Bytes) : Prop :=
  (∃ piece, line = dataLine piece) ∨ ∃ cancelled, line = Inquiry.terminator cancelled

/-- The lines that are written beside the log: one for each command, and the answers to
inquiries. -/
inductive LogLines : List Exchange → List Bytes → Prop where
  | nil : LogLines [] []
  | command {log : List Exchange} {lines : List Bytes} {line : Bytes} (command : Command)
      (h : LogLines log lines) (hline : encoded (encodeCommand command) = .ok line) :
      LogLines (log ++ [.command command]) (lines ++ [line])
  | reply {log : List Exchange} {lines : List Bytes} {line : Bytes} (h : LogLines log lines)
      (hline : ReplyLine line) : LogLines log (lines ++ [line])
  | final {log : List Exchange} {lines : List Bytes} (code : Option UInt32)
      (h : LogLines log lines) : LogLines (log ++ [.final code]) lines

/-- What `logFinal` adds. -/
def finals (received : Received) : List Exchange :=
  if received.kind = .ok ∨ received.kind = .err then [.final received.code] else []

theorem LogLines.finals {log : List Exchange} {lines : List Bytes} (h : LogLines log lines)
    (received : Received) : LogLines (log ++ Assuan.finals received) lines := by
  unfold Assuan.finals
  split
  · exact h.final _
  · rwa [List.append_nil]

theorem Answers.log_append (answers : Answers) (command : Command) (code : Option UInt32) :
    answers.log ++ [.command command] ++ [.final code] =
      Answers.log (answers ++ [(command, code)]) := by
  simp [Answers.log]

section Machine

variable {machine machine' : ClientMachine} {log : List Exchange}

theorem Phase.live (h : Phase machine log) : machine.state ≠ .invalid ∧ machine.state ≠ .closed := by
  unfold Phase at h
  constructor <;> intro hstate <;> rw [hstate] at h <;> exact h

/-- A response that the machine accepts is booked as the log books it. -/
theorem Phase.receive (h : Phase machine log) {received : Received}
    (hok : machine.receive received.kind = (.ok (), machine')) :
    Phase machine' (log ++ finals received) := by
  obtain ⟨state, origin⟩ := machine
  unfold Phase at h
  unfold ClientMachine.receive at hok
  -- the log grows only where the machine goes back to `Ready`
  cases state <;> dsimp only at h
  case ready =>
    obtain ⟨answers, rfl⟩ := h
    cases hkind : received.kind <;> rw [hkind] at hok <;> simp at hok
    all_goals
      subst hok
      exact ⟨answers, by simp [finals, hkind]⟩
  case command =>
    obtain ⟨answers, command, rfl⟩ := h
    cases hkind : received.kind <;> rw [hkind] at hok <;> simp at hok
    all_goals subst hok
    case ok => exact ⟨answers ++ [(command, received.code)], by
      simp [finals, hkind, ← Answers.log_append]⟩
    case err => exact ⟨answers ++ [(command, received.code)], by
      simp [finals, hkind, ← Answers.log_append]⟩
    case inquire => exact ⟨rfl, answers, command, by simp [finals, hkind]⟩
    all_goals exact ⟨answers, command, by simp [finals, hkind]⟩
  case inquiry =>
    obtain ⟨horigin, answers, command, rfl⟩ := h
    cases hkind : received.kind <;> rw [hkind] at hok <;> simp at hok
    all_goals
      subst hok
      exact ⟨horigin, answers, command, by simp [finals, hkind]⟩
  case awaitFinal =>
    obtain ⟨answers, command, rfl⟩ := h
    cases hkind : received.kind <;> rw [hkind] at hok <;> simp at hok
    case ok =>
      subst hok
      exact ⟨answers ++ [(command, received.code)], by simp [finals, hkind, ← Answers.log_append]⟩
    case err =>
      -- a rejection after a cancelled greeting is an error, so the origin is a command
      split at hok
      · simp at hok
      · obtain rfl : ClientMachine.mk ClientState.ready origin = machine' := by simpa using hok
        exact ⟨answers ++ [(command, received.code)], by
          simp [finals, hkind, ← Answers.log_append]⟩
    all_goals
      subst hok
      exact ⟨answers, command, by simp [finals, hkind]⟩

/-- In `Ready` nothing but comments and empty lines is accepted. -/
theorem ClientMachine.receive_of_ready (h : machine.state = .ready) {kind : LineKind}
    (hok : machine.receive kind = (.ok (), machine')) : machine' = machine := by
  unfold ClientMachine.receive at hok
  cases kind <;> simp_all

theorem ClientMachine.receive_empty (hok : machine.receive .empty = (.ok (), machine')) :
    machine' = machine := by
  obtain ⟨state, origin⟩ := machine
  unfold ClientMachine.receive at hok
  cases state <;> simp_all

theorem ClientMachine.receive_ok (hok : machine.receive .ok = (.ok (), machine')) :
    machine'.state = .ready := by
  obtain ⟨state, origin⟩ := machine
  unfold ClientMachine.receive at hok
  cases state <;> simp at hok <;> rw [← hok]

/-- Only a final response makes the machine ready. -/
theorem ClientMachine.receive_progress (h : machine.state ≠ .ready) {kind : LineKind} (hkind : kind ≠ .ok)
    (hkind' : kind ≠ .err) (hok : machine.receive kind = (.ok (), machine')) :
    machine'.state ≠ .ready := by
  obtain ⟨state, origin⟩ := machine
  unfold ClientMachine.receive at hok
  cases state <;> cases kind <;> simp_all
  all_goals
    subst hok
    simp

theorem ClientMachine.receive_inquire (hok : machine.receive .inquire = (.ok (), machine')) :
    machine'.state = .inquiry := by
  obtain ⟨state, origin⟩ := machine
  unfold ClientMachine.receive at hok
  cases state <;> simp at hok
  all_goals
    subst hok
    rfl

end Machine

/-! ## §3  Poisoned and sound sessions -/

namespace SessionCore

/-- Every operation will be refused. -/
def Poisoned (core : SessionCore) : Prop :=
  core.ioUncertain = true ∨ core.machine.state = .invalid ∨ core.machine.state = .closed

/-- Deadlines can be computed: no instant overflows, and the options are valid. -/
def Representable (core : SessionCore) : Prop := core.horizon = [] ∧ core.commandTimeout ≠ 0

/-- What a session has logged and written since `start`. -/
structure Accounts (start : SessionCore) (log : List Exchange) (lines : List Bytes)
    (core : SessionCore) : Prop where
  log : core.log = start.log ++ log
  written : written core.channel.trace = written start.channel.trace ++ lines.flatten

/-- What holds since `start` of a session that is not poisoned. -/
structure Sound (start core : SessionCore) : Prop where
  standing : Standing core.channel
  opened : core.channel.stream.isSome = true
  certain : core.ioUncertain = false
  phase : ∃ log lines, Accounts start log lines core ∧ Phase core.machine log ∧ LogLines log lines
  representable : Representable core

/-- A refused operation: it failed, and neither read nor wrote. -/
def Refused {α : Type} (core : SessionCore) (o : Outcome ClientError α) (core' : SessionCore) : Prop :=
  o.Failed ∧ core'.Poisoned ∧ core'.channel.trace = core.channel.trace

section Sessions

variable {start core : SessionCore} {α : Type}

theorem poisoned_invalidate (core : SessionCore) : core.invalidate.Poisoned := by
  unfold Poisoned invalidate ClientMachine.invalidate
  by_cases h : core.machine.state = .closed
  · simp [h]
  · simp [h]

theorem Poisoned.not_usable (h : core.Poisoned) : core.isUsable = false := by
  unfold isUsable
  rcases h with h | h | h <;> simp [h]

theorem live_of_certain (hcertain : core.ioUncertain = false)
    (hstate : core.machine.state ≠ .invalid ∧ core.machine.state ≠ .closed) : ¬ core.Poisoned := by
  rintro (hflag | hinvalid | hclosed)
  · exact absurd (hcertain.symm.trans hflag) (by simp)
  · exact hstate.1 hinvalid
  · exact hstate.2 hclosed

theorem live_of_usable (h : core.isUsable = true) : ¬ core.Poisoned := by
  intro hpoisoned
  rw [hpoisoned.not_usable] at h
  exact absurd h (by simp)

theorem certain_of_live (h : ¬ core.Poisoned) : core.ioUncertain = false := by
  cases hflag : core.ioUncertain with
  | false => rfl
  | true => exact absurd (Or.inl hflag) h

theorem Sound.not_poisoned (h : Sound start core) : ¬ core.Poisoned :=
  let ⟨_, _, _, hphase, _⟩ := h.phase
  live_of_certain h.certain hphase.live

theorem Poisoned.check (h : core.Poisoned) :
    check core = (.err (.state .unusable), core.invalidate) := if_pos h

theorem Sound.check (h : Sound start core) : SessionCore.check core = (.ok (), core) :=
  if_neg h.not_poisoned

/-- Whatever starts with `check` is refused by a poisoned session. -/
theorem Poisoned.refused (h : core.Poisoned) (f : Unit → Action SessionCore ClientError α) :
    Action.Post (SessionCore.check >>= f) core (Refused core) := by
  apply Action.Post.bind_failed h.check (by simp)
  exact ⟨by simp [Outcome.relabel], poisoned_invalidate core, rfl⟩

theorem requireState_ok {wanted : ClientState} (h : core.machine.state = wanted) :
    requireState wanted core = (.ok (), core) := if_pos h

theorem requireState_err {wanted : ClientState} (h : core.machine.state ≠ wanted) :
    requireState wanted core = (.err (.state .notReady), core.invalidate) := if_neg h

/-! ### Reading -/

theorem onChannel_apply (core : SessionCore) {x : Action Channel TransportError α} {ch : Channel}
    {o : Outcome TransportError α} (h : x core.channel = (o, ch)) :
    onChannel x core = (o.mapErr .transport, { core with channel := ch }) :=
  Action.mapErr_apply (Action.zoom_apply h)

/-- What a read that succeeds has done. -/
structure Consumed (start core : SessionCore) (received : Received) (core' : SessionCore) : Prop where
  sound : Sound start core'
  machine : core.machine.receive received.kind = (.ok (), core'.machine)
  supply : core'.channel.supply < core.channel.supply
  line : ∃ line, core'.channel.receivedLine = some line ∧ Located received line

theorem logFinal_eq (received : Received) (core : SessionCore) :
    logFinal received core = { core with log := core.log ++ finals received } := by
  unfold logFinal finals
  by_cases h : received.kind = .ok ∨ received.kind = .err
  · rw [if_pos h, if_pos h]
  · rw [if_neg h, if_neg h, List.append_nil]

theorem check_ok (h : ¬ core.Poisoned) : SessionCore.check core = (.ok (), core) := if_neg h

/-- The line and its classification, with the flag up. -/
def readBody : Action SessionCore ClientError Received := do
  let line ← onChannel Channel.readLine
  classify line

theorem read_ok {received : Received} {core' : SessionCore} (hlive : ¬ core.Poisoned)
    (hbody : readBody { core with ioUncertain := true } = (.ok received, core')) :
    SessionCore.read core = (.ok received, logFinal received { core' with ioUncertain := false }) := by
  rw [SessionCore.read, Action.bind_ok (check_ok hlive)]
  show (Action.onError invalidate readBody >>= _) { core with ioUncertain := true } = _
  rw [Action.bind_ok (Action.onError_ok hbody)]
  rfl

theorem read_err {e : ClientError} {core' : SessionCore} (hlive : ¬ core.Poisoned)
    (hbody : readBody { core with ioUncertain := true } = (.err e, core')) :
    SessionCore.read core = (.err e, core'.invalidate) := by
  have hguard : Action.onError invalidate readBody { core with ioUncertain := true } =
      (.err e, core'.invalidate) := by rw [Action.onError, hbody]
  rw [SessionCore.read, Action.bind_ok (check_ok hlive)]
  show (Action.onError invalidate readBody >>= _) { core with ioUncertain := true } = _
  rw [Action.bind_failed hguard (by simp)]
  rfl

theorem read_dropped {core' : SessionCore} (hlive : ¬ core.Poisoned)
    (hbody : readBody { core with ioUncertain := true } = (.dropped, core')) :
    SessionCore.read core = (.dropped, core') := by
  have hguard : Action.onError invalidate readBody { core with ioUncertain := true } =
      (.dropped, core') := by rw [Action.onError, hbody]
  rw [SessionCore.read, Action.bind_ok (check_ok hlive)]
  show (Action.onError invalidate readBody >>= _) { core with ioUncertain := true } = _
  rw [Action.bind_failed hguard (by simp)]
  rfl

theorem Poisoned.read (h : core.Poisoned) :
    SessionCore.read core = (.err (.state .unusable), core.invalidate) := by
  rw [SessionCore.read, Action.bind_failed h.check (by simp)]
  rfl

/-- `invalidate` on a session that was not closed. -/
def Invalidated (core : SessionCore) : Prop :=
  core.machine.state = .invalid ∧ core.channel.stream = none

theorem invalidated_invalidate (h : core.machine.state ≠ .closed) :
    core.invalidate.Invalidated := by
  refine ⟨?_, rfl⟩
  unfold invalidate ClientMachine.invalidate
  rw [if_neg h]

theorem Invalidated.poisoned (h : core.Invalidated) : core.Poisoned := Or.inr (Or.inl h.1)

/-- A read that has taken the line `seg`, with `rs` coming in meanwhile. -/
structure Takes (core : SessionCore) (rs : List Bytes) (seg : Bytes) (parsed : ServerLine)
    (received : Received) (core' : SessionCore) : Prop where
  standing : Standing core'.channel
  stream : core'.channel.stream.isSome = core.channel.stream.isSome
  supply : core'.channel.supply < core.channel.supply
  terminated : Terminated lf seg
  fits : seg.length ≤ maxLineBytes
  parses : parseServerLine (stripTerminator seg) = .ok parsed
  machine : core.machine.receive parsed.kind = (.ok (), core'.machine)
  split : core.channel.unreadBytes ++ rs.flatten = seg ++ core'.channel.unreadBytes
  presents : ∃ held, core'.channel.receivedLine = some held ∧ Presents parsed received held
  rest : core' = { core with
    channel := core'.channel
    machine := core'.machine
    ioUncertain := false
    log := core.log ++ finals received }

/-- How a read ends: with a line, with an error that invalidates the session, or
dropped while the line is incomplete, with the flag up. -/
inductive ReadEnd (core : SessionCore) (rs : List Bytes) :
    Outcome ClientError Received → SessionCore → Prop where
  | took {received : Received} {core' : SessionCore} (seg : Bytes) (parsed : ServerLine) :
      Takes core rs seg parsed received core' → ReadEnd core rs (.ok received) core'
  | refused {core' : SessionCore} (e : ClientError) :
      core'.Invalidated → Standing core'.channel → ReadEnd core rs (.err e) core'
  | dropped {core' : SessionCore} :
      core'.ioUncertain = true → Standing core'.channel →
      lf ∉ core.channel.unreadBytes ++ rs.flatten →
      (core.channel.unreadBytes ++ rs.flatten).length < maxLineBytes →
      ReadEnd core rs .dropped core'

theorem Poisoned.of_not_closed (h : ¬ core.Poisoned) : core.machine.state ≠ .closed :=
  fun hclosed => h (Or.inr (Or.inr hclosed))

theorem read_cases (hstanding : Standing core.channel) (hlive : ¬ core.Poisoned) :
    Action.Post SessionCore.read core fun o core' =>
      ∃ rs : List Bytes, core'.channel.trace = core.channel.trace ++ rs.map .read ∧
        ReadEnd core rs o core' := by
  apply Action.Post.intro
  intro o core' hrun
  have heffect := readLine_effect hstanding
  have htaken := readLine_taken hstanding
  rcases hline : Channel.readLine core.channel with ⟨result, ch⟩
  obtain ⟨hstanding', hstream, hheld⟩ := heffect.elim hline
  obtain ⟨hsafe, rs, t⟩ := htaken.elim hline
  have hread : onChannel Channel.readLine { core with ioUncertain := true } =
      (result.mapErr .transport, { core with channel := ch, ioUncertain := true }) :=
    onChannel_apply { core with ioUncertain := true } hline
  have hopen := Poisoned.of_not_closed hlive
  refine ⟨rs, ?_⟩
  -- the flag is up for as long as the channel and `classify` are at work
  cases result with
  | ok line =>
      obtain ⟨hholds, hsupply⟩ := hheld line rfl
      obtain ⟨seg, hterm, hseg, rfl, hsplit⟩ := t.line line rfl
      rcases @classify_cases _ { core with channel := ch, ioUncertain := true } hholds with
        ⟨parsed, received, buffer, held, machine, hparse, hreceive, hclass, hbuffer, hpresents⟩ |
        ⟨-, e, buffer, machine, hclass, hmachine⟩
      · have hbody := (Action.bind_ok hread).trans hclass
        rw [read_ok hlive hbody, logFinal_eq] at hrun
        obtain ⟨rfl, rfl⟩ := Prod.mk.inj hrun
        refine ⟨t.trace, .took seg parsed ⟨?_, hstream, hsupply, hterm, hseg, hparse, hreceive,
          hsplit, ⟨held, hbuffer, hpresents⟩, rfl⟩⟩
        obtain ⟨stream, line, unread, clock, trace, hunread, rfl⟩ := hstanding'
        exact standing_intro hunread
      · have hbody := (Action.bind_ok hread).trans hclass
        rw [read_err hlive hbody] at hrun
        obtain ⟨rfl, rfl⟩ := Prod.mk.inj hrun
        exact ⟨t.trace, .refused e (invalidated_invalidate (hmachine hopen)) (standing_close _)⟩
  | err e =>
      have hbody : readBody { core with ioUncertain := true } = (.err (.transport e), _) :=
        Action.bind_failed hread (by simp)
      rw [read_err hlive hbody] at hrun
      obtain ⟨rfl, rfl⟩ := Prod.mk.inj hrun
      exact ⟨t.trace, .refused _ (invalidated_invalidate hopen) (standing_close _)⟩
  | panic => exact absurd rfl hsafe
  | dropped =>
      have hbody : readBody { core with ioUncertain := true } = (.dropped, _) :=
        Action.bind_failed hread (by simp [Outcome.mapErr])
      rw [read_dropped hlive hbody] at hrun
      obtain ⟨rfl, rfl⟩ := Prod.mk.inj hrun
      obtain ⟨hnone, hlen⟩ := t.dropped rfl
      exact ⟨t.trace, .dropped rfl hstanding' hnone hlen⟩

theorem ReadEnd.ends {rs : List Bytes} {o : Outcome ClientError Received} {core' : SessionCore}
    (h : ReadEnd core rs o core') :
    Action.Ends Poisoned
      (fun received core' => ∃ seg parsed, Takes core rs seg parsed received core') o core' := by
  cases h with
  | took seg parsed t => exact .ok ⟨seg, parsed, t⟩
  | refused e hinvalid _ => exact .failed (by simp) hinvalid.poisoned
  | dropped hflag _ _ _ => exact .failed (by simp) (Or.inl hflag)

/-- A read of a sound session consumes a line, or poisons the session. -/
theorem Sound.read (h : Sound start core) :
    Action.Post SessionCore.read core (Action.Ends Poisoned (Consumed start core)) := by
  apply Action.Post.mono (read_cases h.standing h.not_poisoned)
  rintro o core' ⟨rs, htrace, hend⟩
  apply hend.ends.mono
  rintro received ⟨seg, parsed, t⟩
  obtain ⟨held, hheld, hpresents⟩ := t.presents
  have hmachine : core.machine.receive received.kind = (.ok (), core'.machine) := by
    rw [hpresents.kind]
    exact t.machine
  refine ⟨⟨t.standing, t.stream.trans h.opened, ?_, ?_, ?_⟩, hmachine, t.supply,
    ⟨held, hheld, hpresents.located⟩⟩
  · rw [t.rest]
  · have hlog : core'.log = core.log ++ finals received := by rw [t.rest]
    obtain ⟨log, lines, haccounts, hphase, hspoken⟩ := h.phase
    refine ⟨log ++ finals received, lines, ⟨?_, ?_⟩, hphase.receive hmachine, hspoken.finals _⟩
    · rw [hlog, haccounts.log, List.append_assoc]
    · rw [htrace, written_append, written_reads, List.append_nil, haccounts.written]
  · have hrepresentable : core'.horizon = core.horizon ∧
        core'.commandTimeout = core.commandTimeout := by
      rw [t.rest]
      exact ⟨rfl, rfl⟩
    exact ⟨hrepresentable.1.trans h.representable.1, by
      rw [hrepresentable.2]
      exact h.representable.2⟩

/-! ### Writing -/

/-- A write that has handed over the whole line keeps all but the channel; of any
other the stream may have a part. -/
structure Writes (bytes : Bytes) (core : SessionCore) (o : Outcome ClientError Unit)
    (core' : SessionCore) : Prop where
  trace : core'.channel.trace = core.channel.trace ∨
    ∃ n, core'.channel.trace = core.channel.trace ++ [.wrote (bytes.take n)]
  sent : o = .ok () → ∃ ch, core' = { core with channel := ch } ∧ Standing ch ∧
    ch.stream.isSome = core.channel.stream.isSome ∧
    ch.trace = core.channel.trace ++ [.wrote bytes] ∧ ch.unreadBytes = core.channel.unreadBytes
  failed : o.Failed → core'.Poisoned

theorem Poisoned.writeAt (h : core.Poisoned) (bytes : Bytes) :
    SessionCore.writeAt bytes core = (.err (.state .unusable), core.invalidate) := by
  rw [SessionCore.writeAt, Action.bind_failed h.check (by simp)]
  rfl

theorem writeAt_ok {bytes : Bytes} {ch : Channel} (hlive : ¬ core.Poisoned)
    (hwrite : Channel.writeLine bytes core.channel = (.ok (), ch)) :
    SessionCore.writeAt bytes core = (.ok (), { core with channel := ch }) := by
  have hrun : onChannel (Channel.writeLine bytes) { core with ioUncertain := true } =
      (.ok (), { core with channel := ch, ioUncertain := true }) :=
    onChannel_apply { core with ioUncertain := true } hwrite
  rw [SessionCore.writeAt, Action.bind_ok (check_ok hlive)]
  show (Action.onError invalidate (onChannel (Channel.writeLine bytes)) >>= _)
    { core with ioUncertain := true } = _
  rw [Action.bind_ok (Action.onError_ok hrun), certain_of_live hlive]
  rfl

theorem writeAt_inv {bytes : Bytes} {core' : SessionCore}
    (h : SessionCore.writeAt bytes core = (.ok (), core')) :
    ¬ core.Poisoned ∧ ∃ ch, Channel.writeLine bytes core.channel = (.ok (), ch) ∧
      core' = { core with channel := ch } := by
  have hlive : ¬ core.Poisoned := by
    intro hpoisoned
    rw [hpoisoned.writeAt] at h
    exact absurd (Prod.mk.inj h).1 (by simp)
  refine ⟨hlive, ?_⟩
  rcases hwrite : Channel.writeLine bytes core.channel with ⟨result, ch⟩
  have hrun : onChannel (Channel.writeLine bytes) { core with ioUncertain := true } =
      (result.mapErr .transport, { core with channel := ch, ioUncertain := true }) :=
    onChannel_apply { core with ioUncertain := true } hwrite
  rw [SessionCore.writeAt, Action.bind_ok (check_ok hlive)] at h
  obtain ⟨_, flagged, hflag, h⟩ := Action.bind_eq_ok.mp h
  obtain ⟨-, rfl⟩ := Prod.mk.inj hflag
  obtain ⟨_, core₁, hguard, h⟩ := Action.bind_eq_ok.mp h
  obtain ⟨hresult, rfl⟩ := Prod.mk.inj (hrun.symm.trans (Action.onError_eq_ok.mp hguard))
  obtain ⟨-, rfl⟩ := Prod.mk.inj h
  refine ⟨ch, ?_, ?_⟩
  · rw [Outcome.mapErr_eq_ok.mp hresult]
  · rw [← certain_of_live hlive]

theorem writeAt_cases (hstanding : Standing core.channel) (hlive : ¬ core.Poisoned)
    (bytes : Bytes) : Action.Post (SessionCore.writeAt bytes) core (Writes bytes core) := by
  unfold SessionCore.writeAt
  apply Action.Post.bind_ok (check_ok hlive)
  apply Action.Post.bind_ok rfl
  have e := writeLine_effect hstanding bytes
  rcases hwrite : Channel.writeLine bytes core.channel with ⟨result, ch⟩
  rw [hwrite] at e
  have hrun : onChannel (Channel.writeLine bytes) { core with ioUncertain := true } =
      (result.mapErr .transport, { core with channel := ch, ioUncertain := true }) :=
    onChannel_apply { core with ioUncertain := true } hwrite
  have hcertain := certain_of_live hlive
  cases result with
  | ok u =>
      apply Action.Post.bind_ok (Action.onError_ok hrun)
      obtain ⟨htrace, hunread⟩ := e.sent rfl
      refine ⟨Or.inr ⟨bytes.length, ?_⟩, fun _ => ⟨ch, ?_, e.standing, e.stream, htrace, hunread⟩,
        fun hfail => absurd hfail (by simp [completeIo])⟩
      · rw [List.take_length]
        exact htrace
      · show { core with channel := ch, ioUncertain := false } = { core with channel := ch }
        rw [← hcertain]
  | err error =>
      have hguard : Action.onError invalidate (onChannel (Channel.writeLine bytes))
          { core with ioUncertain := true } = (.err (.transport error),
            invalidate { core with channel := ch, ioUncertain := true }) := by
        rw [Action.onError, hrun]
        rfl
      apply Action.Post.bind_failed hguard (by simp)
      exact ⟨e.trace, by simp [Outcome.relabel], fun _ => poisoned_invalidate _⟩
  | panic => exact absurd rfl e.safe
  | dropped =>
      have hguard : Action.onError invalidate (onChannel (Channel.writeLine bytes))
          { core with ioUncertain := true } =
            (.dropped, { core with channel := ch, ioUncertain := true }) := by
        rw [Action.onError, hrun]
        rfl
      apply Action.Post.bind_failed hguard (by simp)
      exact ⟨e.trace, by simp [Outcome.relabel], fun _ => Or.inl rfl⟩

/-- A write keeps all but the channel, and its line is accounted for. -/
theorem Sound.writeAt (h : Sound start core) {bytes : Bytes} (hreply : ReplyLine bytes) :
    Action.Post (SessionCore.writeAt bytes) core
      (Action.Ends Poisoned fun _ core' =>
        Sound start core' ∧ core'.machine = core.machine) := by
  apply Action.Post.mono (writeAt_cases h.standing h.not_poisoned bytes)
  intro o core' w
  refine ⟨w.failed, ?_⟩
  rintro u rfl
  obtain ⟨ch, rfl, hstanding, hstream, htrace, -⟩ := w.sent rfl
  obtain ⟨log, lines, haccounts, hphase, hspoken⟩ := h.phase
  refine ⟨⟨hstanding, hstream.trans h.opened, h.certain,
    ⟨log, lines ++ [bytes], ⟨haccounts.log, ?_⟩, hphase, hspoken.reply hreply⟩,
    h.representable⟩, rfl⟩
  show written ch.trace = _
  rw [htrace, written_append, haccounts.written, written_wrote, List.flatten_append,
    List.flatten_singleton, List.append_assoc]

end Sessions

end SessionCore

end Assuan
