import Assuan.Client.Spec

/-!
# A poisoned session stays poisoned

The steps a program can take with one client session: it issues a command, reads
events, answers an inquiry, and finishes, drops or forgets the guards it holds.
Which step is possible depends on the guard at hand, as the borrow checker sees
to it. Every asynchronous step may also fail or be dropped at any read or write,
as the script of the stream has it.
-/

namespace Assuan

open Channel LineBuffer SessionCore

/-! ## §1  Steps -/

/-- What the program holds besides the client. -/
inductive Guard : Type where
  | free
  | transaction (completion : Completion)
  | inquiry (completion : Completion) (inquiry : Inquiry)

structure Caller : Type where
  core : SessionCore
  guard : Guard

inductive ClientStep : Type where
  | command (command : Command) (sensitivity : Sensitivity)
  | next
  | finish
  | dropTransaction
  | forgetTransaction
  | send (bytes : Bytes)
  | complete (cancelled : Bool)
  | dropInquiry
  | forgetInquiry

namespace Caller

/-- The guard after `next`: the event of an inquiry is a guard of its own. -/
def guardAfter (completion : Completion) : Outcome ClientError (Option Event) → Guard
  | .ok (some (.inquire inquiry)) => .inquiry completion inquiry
  | _ => .transaction completion

/-- The guard after `command`: only a success returns a transaction. -/
def guardOf : Outcome ClientError Unit → Guard
  | .ok () => .transaction .pending
  | _ => .free

/-- The result of a step without its value. -/
def ending {α : Type} : Outcome ClientError α → Outcome ClientError Unit
  | .ok _ => .ok ()
  | .err e => .err e
  | .panic => .panic
  | .dropped => .dropped

/-- One step, if the guard at hand allows it. -/
def step (caller : Caller) : ClientStep → Option (Outcome ClientError Unit × Caller)
  | .command command sensitivity =>
      match caller.guard with
      | .free =>
          let r := commandWith command sensitivity caller.core
          some (r.1, ⟨r.2, guardOf r.1⟩)
      | _ => none
  | .next =>
      match caller.guard with
      | .transaction completion =>
          let r := Transaction.next (caller.core, completion)
          some (ending r.1, ⟨r.2.1, guardAfter r.2.2 r.1⟩)
      | _ => none
  | .finish =>
      match caller.guard with
      | .transaction completion =>
          let r := Transaction.finish completion caller.core
          some (r.1, ⟨r.2, .free⟩)
      | _ => none
  | .dropTransaction =>
      match caller.guard with
      | .transaction _ => some (.ok (), ⟨Transaction.drop caller.core, .free⟩)
      | _ => none
  | .forgetTransaction =>
      match caller.guard with
      | .transaction _ => some (.ok (), ⟨caller.core, .free⟩)
      | _ => none
  | .send bytes =>
      match caller.guard with
      | .inquiry completion inquiry =>
          let r := Inquiry.send bytes (caller.core, inquiry)
          some (r.1, ⟨r.2.1, .inquiry completion r.2.2⟩)
      | _ => none
  | .complete cancelled =>
      match caller.guard with
      | .inquiry completion inquiry =>
          let r := Inquiry.finish cancelled inquiry caller.core
          some (r.1, ⟨r.2, .transaction completion⟩)
      | _ => none
  | .dropInquiry =>
      match caller.guard with
      | .inquiry completion inquiry =>
          some (.ok (), ⟨Inquiry.drop (caller.core, inquiry), .transaction completion⟩)
      | _ => none
  | .forgetInquiry =>
      match caller.guard with
      | .inquiry completion _ => some (.ok (), ⟨caller.core, .transaction completion⟩)
      | _ => none

/-- Everything a step can be. -/
inductive Stepped : Caller → ClientStep → Outcome ClientError Unit → Caller → Prop where
  | command (core : SessionCore) (command : Command) (sensitivity : Sensitivity) :
      Stepped ⟨core, .free⟩ (.command command sensitivity)
        (commandWith command sensitivity core).1
        ⟨(commandWith command sensitivity core).2, guardOf (commandWith command sensitivity core).1⟩
  | next (core : SessionCore) (completion : Completion) :
      Stepped ⟨core, .transaction completion⟩ .next (ending (Transaction.next (core, completion)).1)
        ⟨(Transaction.next (core, completion)).2.1,
          guardAfter (Transaction.next (core, completion)).2.2
            (Transaction.next (core, completion)).1⟩
  | finish (core : SessionCore) (completion : Completion) :
      Stepped ⟨core, .transaction completion⟩ .finish (Transaction.finish completion core).1
        ⟨(Transaction.finish completion core).2, .free⟩
  | dropTransaction (core : SessionCore) (completion : Completion) :
      Stepped ⟨core, .transaction completion⟩ .dropTransaction (.ok ())
        ⟨Transaction.drop core, .free⟩
  | forgetTransaction (core : SessionCore) (completion : Completion) :
      Stepped ⟨core, .transaction completion⟩ .forgetTransaction (.ok ()) ⟨core, .free⟩
  | send (core : SessionCore) (completion : Completion) (inquiry : Inquiry) (bytes : Bytes) :
      Stepped ⟨core, .inquiry completion inquiry⟩ (.send bytes)
        (Inquiry.send bytes (core, inquiry)).1
        ⟨(Inquiry.send bytes (core, inquiry)).2.1,
          .inquiry completion (Inquiry.send bytes (core, inquiry)).2.2⟩
  | complete (core : SessionCore) (completion : Completion) (inquiry : Inquiry) (cancelled : Bool) :
      Stepped ⟨core, .inquiry completion inquiry⟩ (.complete cancelled)
        (Inquiry.finish cancelled inquiry core).1
        ⟨(Inquiry.finish cancelled inquiry core).2, .transaction completion⟩
  | dropInquiry (core : SessionCore) (completion : Completion) (inquiry : Inquiry) :
      Stepped ⟨core, .inquiry completion inquiry⟩ .dropInquiry (.ok ())
        ⟨Inquiry.drop (core, inquiry), .transaction completion⟩
  | forgetInquiry (core : SessionCore) (completion : Completion) (inquiry : Inquiry) :
      Stepped ⟨core, .inquiry completion inquiry⟩ .forgetInquiry (.ok ())
        ⟨core, .transaction completion⟩

theorem stepped_of_step {caller caller' : Caller} {step : ClientStep}
    {o : Outcome ClientError Unit} (h : caller.step step = some (o, caller')) :
    Stepped caller step o caller' := by
  obtain ⟨core, guard⟩ := caller
  -- nine combinations are steps; the guard at hand forbids the others
  cases step <;> cases guard <;> unfold Caller.step at h
  all_goals first
    | obtain ⟨rfl, rfl⟩ := Prod.mk.inj (Option.some.inj h)
      constructor
    | exact absurd h (by simp)

/-- The states that some finite sequence of steps leads to. -/
inductive Reaches : Caller → Caller → Prop where
  | refl (caller : Caller) : Reaches caller caller
  | tail {a b c : Caller} (step : ClientStep) (o : Outcome ClientError Unit) :
      Reaches a b → b.step step = some (o, c) → Reaches a c

/-- The failures after which a session may be used: an `ERR` of the server, and
the check of the length of a command in `Ready`, before anything is sent. -/
def Excused (caller : Caller) (step : ClientStep) (o : Outcome ClientError Unit) : Prop :=
  (∃ code, o = .err (.remote code)) ∨
  ∃ command sensitivity, step = .command command sensitivity ∧
    caller.core.machine.state = .ready ∧ o = .err (.protocol .lineTooLong) ∧
    encoded (encodeCommand command) = .err .lineTooLong

/-- The steps that end the usefulness of a session: those that are dropped or
fail, and the drop of a guard before its end. -/
def Poisons (caller : Caller) (step : ClientStep) (o : Outcome ClientError Unit) : Prop :=
  (o.Failed ∧ ¬ caller.Excused step o) ∨
  (step = .dropTransaction ∧ caller.guard = .transaction .pending) ∨ step = .dropInquiry

/-- A session after its greeting. -/
structure Fresh (caller : Caller) : Prop where
  standing : Standing caller.core.channel
  opened : caller.core.channel.stream.isSome = true
  certain : caller.core.ioUncertain = false
  ready : caller.core.machine.state = .ready
  representable : caller.core.Representable
  guard : caller.guard = .free

/-! ## §2  The invariant -/

/-- A guard that is not at its end belongs to a command that is not at its. -/
def Fits (core : SessionCore) : Guard → Prop
  | .free => True
  | .transaction completion => completion = .pending → core.machine.state ≠ .ready
  | .inquiry completion inquiry =>
      completion = .pending ∧ core.machine.state = .inquiry ∧ inquiry.completed = false

/-- Poisoned for good, or sound with a guard that fits. -/
def Settled (start : SessionCore) (caller : Caller) : Prop :=
  caller.core.Poisoned ∨ (Sound start caller.core ∧ Fits caller.core caller.guard)

end Caller

/-! ## §3  Operations of a sound session -/

namespace SessionCore

section Operations

variable {start core : SessionCore} {α γ : Type}

/-- Lines read ahead do not move a machine that is ready. -/
theorem Sound.drain {fuel : ℕ} (h : Sound start core) (hready : core.machine.state = .ready)
    (hfuel : core.channel.supply < fuel) :
    Action.Post (SessionCore.drain fuel) core
      (Action.Ends Poisoned fun _ core' => Sound start core' ∧ core'.machine = core.machine) := by
  induction fuel generalizing core with
  | zero => exact absurd hfuel (Nat.not_lt_zero _)
  | succ fuel ih =>
      rw [SessionCore.drain]
      apply Action.Post.get_bind
      by_cases hahead : core.channel.hasBufferedInput = true
      · rw [if_pos hahead]
        apply Action.Post.bind_ends h.read
        intro received core' c
        have hsame := ClientMachine.receive_of_ready hready c.machine
        have hrest := ih c.sound (by rw [hsame]; exact hready)
          (Nat.lt_of_lt_of_le c.supply (Nat.le_of_lt_succ hfuel))
        rw [hsame] at hrest
        exact hrest
      · rw [if_neg hahead]
        exact .ok ⟨h, rfl⟩

theorem deadline_ok {duration : ℕ} (hhorizon : core.horizon = []) (hduration : duration ≠ 0) :
    deadline duration core = (.ok (), core) := by
  obtain ⟨channel, machine, ioUncertain, sensitivity, commandTimeout, inquiryTimeout,
    maxInquiryBytes, horizon, allocations, log⟩ := core
  obtain rfl : horizon = [] := hhorizon
  rw [deadline, if_neg hduration]
  rfl

theorem beginCommand_ready (core : SessionCore) (h : core.machine.state = .ready) :
    beginCommand core = (.ok (), { core with machine := { core.machine with state := .command } }) := by
  have hbegin : core.machine.beginCommand = (.ok (), { core.machine with state := .command }) := by
    unfold ClientMachine.beginCommand
    rw [h]
  rw [beginCommand, hbegin]
  rfl

theorem beginCommand_inv {core' : SessionCore} (h : beginCommand core = (.ok (), core')) :
    core.machine.state = .ready := by
  by_contra hstate
  have hrefused : ∃ e, core.machine.beginCommand.1 = .error e := by
    unfold ClientMachine.beginCommand
    split
    · next hready => exact absurd hready hstate
    · exact ⟨_, rfl⟩
    · exact ⟨_, rfl⟩
    · exact ⟨_, rfl⟩
  obtain ⟨e, he⟩ := hrefused
  have hok := (Prod.mk.inj h).1
  rw [he] at hok
  exact absurd hok (by simp [ofState])

/-- The end of `command_with`: the line is written in `Command`. -/
theorem Sound.reserve (h : Sound start core) (hready : core.machine.state = .ready)
    {command : Command} {bytes : Bytes} (hbytes : encoded (encodeCommand command) = .ok bytes)
    (sensitivity : Sensitivity) :
    Action.Post (do
      Action.modify fun core => { core with sensitivity := sensitivity }
      beginCommand
      Action.modify fun core => { core with log := core.log ++ [.command command] }
      SessionCore.writeAt bytes) core
      (Action.Ends Poisoned fun _ core' => Sound start core' ∧ core'.machine.state = .command) := by
  obtain ⟨log, lines, haccounts, hphase, hlines⟩ := h.phase
  unfold Phase at hphase
  rw [hready] at hphase
  obtain ⟨answers, rfl⟩ := hphase
  apply Action.Post.bind_ok rfl
  apply Action.Post.bind_ok
    (beginCommand_ready { core with sensitivity := sensitivity } hready)
  apply Action.Post.bind_ok rfl
  -- the log is ahead of the lines until the write succeeds
  have hwrite := @writeAt_cases
    { core with
      sensitivity := sensitivity, machine := { core.machine with state := .command }
      log := core.log ++ [.command command] }
    h.standing (live_of_certain h.certain (by simp)) bytes
  apply Action.Post.mono hwrite
  intro o core' w
  refine ⟨w.failed, ?_⟩
  rintro u rfl
  obtain ⟨ch, rfl, hstanding, hstream, htrace, -⟩ := w.sent rfl
  refine ⟨⟨hstanding, hstream.trans h.opened, h.certain,
    ⟨answers.log ++ [.command command], lines ++ [bytes], ⟨?_, ?_⟩, ⟨answers, command, rfl⟩,
      hlines.command command hbytes⟩, h.representable⟩, rfl⟩
  · show core.log ++ [.command command] = _
    rw [haccounts.log, List.append_assoc]
  · show written ch.trace = _
    rw [htrace, written_append, written_wrote, List.flatten_append, List.flatten_singleton,
      ← List.append_assoc, ← haccounts.written]

/-- A command poisons the session unless it is too long for a line, in which case
nothing has happened. -/
theorem Sound.commandWith (h : Sound start core) (command : Command) (sensitivity : Sensitivity) :
    Action.Post (SessionCore.commandWith command sensitivity) core fun o core' =>
      (o = .err (.protocol .lineTooLong) ∧ core' = core ∧ core.machine.state = .ready ∧
        encoded (encodeCommand command) = .err .lineTooLong) ∨
      Action.Ends Poisoned (fun _ core' => Sound start core' ∧ core'.machine.state = .command) o core' := by
  unfold SessionCore.commandWith
  apply Action.Post.bind_ok h.check
  by_cases hready : core.machine.state = .ready
  · apply Action.Post.bind_ok (requireState_ok hready)
    rcases encoded_cases (encodeCommand_writesLine command (Buffer.zero _)) with
      ⟨hbytes, -⟩ | ⟨⟨e, hbytes⟩, -⟩
    · rw [hbytes, Outcome.mapErr_ok, Action.lift_ok_bind]
      apply Action.Post.get_bind
      apply Action.Post.bind_ok (deadline_ok h.representable.1 h.representable.2)
      apply Action.Post.mono (Action.Post.bind_ends (h.drain hready (Nat.lt_succ_self _)) _)
      · intro o core' hends
        exact Or.inr hends
      · rintro u core' ⟨hsound, hmachine⟩
        exact hsound.reserve (by rw [hmachine]; exact hready) hbytes sensitivity
    · obtain rfl : e = .lineTooLong := encoded_command_err hbytes
      rw [hbytes, Outcome.mapErr_err, Action.lift_err_bind]
      exact Or.inl ⟨rfl, rfl, hready, rfl⟩
  · apply Action.Post.bind_failed (requireState_err hready) (by simp)
    exact Or.inr (.failed (by simp [Outcome.relabel]) (poisoned_invalidate core))

/-! ### Events -/

/-- What the loop of `next_event` hands over. -/
structure Delivered (start core : SessionCore) (received : Received) (core' : SessionCore) : Prop where
  sound : Sound start core'
  nonempty : received.kind ≠ .empty
  line : ∃ line, core'.channel.receivedLine = some line ∧ Located received line
  progress : core.machine.state ≠ .ready → received.kind ≠ .ok → received.kind ≠ .err →
    core'.machine.state ≠ .ready
  inquire : received.kind = .inquire → core'.machine.state = .inquiry

theorem Sound.readEvent {fuel : ℕ} (h : Sound start core) (hfuel : core.channel.supply < fuel) :
    Action.Post (Transaction.readEvent fuel) core (Action.Ends Poisoned (Delivered start core)) := by
  induction fuel generalizing core with
  | zero => exact absurd hfuel (Nat.not_lt_zero _)
  | succ fuel ih =>
      rw [Transaction.readEvent]
      apply Action.Post.bind_ends h.read
      intro received core' c
      by_cases hempty : received.kind = .empty
      · rw [if_neg (by simpa using hempty)]
        apply Action.Post.mono
          (ih c.sound (Nat.lt_of_lt_of_le c.supply (Nat.le_of_lt_succ hfuel)))
        intro o core'' hends
        apply hends.mono
        intro later d
        refine ⟨d.sound, d.nonempty, d.line, ?_, d.inquire⟩
        intro hready
        apply d.progress
        exact ClientMachine.receive_progress hready (by simp [hempty]) (by simp [hempty]) c.machine
      · rw [if_pos hempty]
        apply Action.Post.pure
        apply Action.Ends.ok
        refine ⟨c.sound, hempty, c.line, ?_, ?_⟩
        · intro hready hok herr
          exact ClientMachine.receive_progress hready hok herr c.machine
        · intro hinquire
          have hmachine := c.machine
          rw [hinquire] at hmachine
          exact ClientMachine.receive_inquire hmachine

/-- Building the guard of an inquiry fails only with a session that is closed. -/
theorem Sound.newInquiry (h : Sound start core) {received : Received}
    (hline : ∃ line, core.channel.receivedLine = some line ∧ Located received line)
    (hkind : received.kind = .inquire) :
    Action.Post (Transaction.newInquiry received) core (Action.Ends Poisoned fun inquiry core' =>
      Sound start core' ∧ core'.machine = core.machine ∧ inquiry.completed = false) := by
  obtain ⟨line, hreceived, hlocated⟩ := hline
  obtain ⟨payload, hpayload⟩ := hlocated.payload
  obtain ⟨keyword, hkeyword⟩ := hlocated.keyword (Or.inr hkind)
  apply Action.Post.intro
  intro o core' hrun
  rcases newInquiry_cases hreceived hkeyword hpayload with hok | ⟨e, horizon, -, herr⟩
  · rw [hok] at hrun
    obtain ⟨rfl, rfl⟩ := Prod.mk.inj hrun
    obtain ⟨log, lines, haccounts, hphase, hlines⟩ := h.phase
    refine .ok ⟨⟨h.standing, h.opened, h.certain,
      ⟨log, lines, ⟨haccounts.log, haccounts.written⟩, hphase, hlines⟩, ?_, h.representable.2⟩,
      rfl, rfl⟩
    show core.horizon.tail = []
    rw [h.representable.1, List.tail_nil]
  · rw [herr] at hrun
    obtain ⟨rfl, rfl⟩ := Prod.mk.inj hrun
    exact .failed (by simp) (poisoned_invalidate _)

/-- Any other line that was delivered is an event. -/
theorem plainEvent_ok {received : Received}
    (hline : ∃ line, core.channel.receivedLine = some line ∧ Located received line)
    (hempty : received.kind ≠ .empty) (hinquire : received.kind ≠ .inquire) :
    ∃ event, Transaction.plainEvent received core = (.ok event, core) ∧
      ∀ inquiry, event ≠ .inquire inquiry := by
  obtain ⟨line, hreceived, hlocated⟩ := hline
  obtain ⟨payload, hpayload⟩ := hlocated.payload
  have hevent : ∃ event, Transaction.eventOf received line
      (PayloadRef.new payload core.sensitivity) = .ok event ∧
      ∀ inquiry, event ≠ .inquire inquiry := by
    unfold Transaction.eventOf
    cases hkind : received.kind with
    | empty => exact absurd hkind hempty
    | inquire => exact absurd hkind hinquire
    | status =>
        obtain ⟨keyword, hkeyword⟩ := hlocated.keyword (Or.inl hkind)
        simp only [hkeyword, Outcome.index_some, Outcome.ok_bind, fromUtf8_asBytes,
          Outcome.okOr_some]
        exact ⟨_, rfl, by simp⟩
    | _ => exact ⟨_, rfl, by simp⟩
  obtain ⟨event, hevent, hother⟩ := hevent
  refine ⟨event, ?_, hother⟩
  unfold Transaction.plainEvent
  rw [Action.bind_ok (Action.get_apply core), hreceived, Outcome.okOr_some, Action.lift_ok_bind,
    hpayload, Outcome.index_some, Action.lift_ok_bind, hevent]
  rfl

/-! ### Guards -/

/-- An operation on the core of a guard. -/
theorem onCore_ends {x : Action SessionCore ClientError α} {P : α → SessionCore → Prop}
    {rest : γ} (h : Action.Post x core (Action.Ends Poisoned P)) :
    Action.Post (onCore x) (core, rest)
      (Action.Ends (fun s => s.1.Poisoned) fun a s => P a s.1 ∧ s.2 = rest) :=
  ⟨h.1, fun a ha => ⟨h.2 a ha, rfl⟩⟩

theorem onCore_ok {x : Action SessionCore ClientError α} {rest : γ} {a : α}
    {core' : SessionCore} (h : x core = (.ok a, core')) :
    onCore x (core, rest) = (.ok a, (core', rest)) :=
  Action.zoom_apply h

theorem Sound.makeEvent (h : Sound start core) {received : Received}
    (hline : ∃ line, core.channel.receivedLine = some line ∧ Located received line)
    (hempty : received.kind ≠ .empty) :
    Action.Post (Transaction.makeEvent received) core (Action.Ends Poisoned fun event core' =>
      Sound start core' ∧ core'.machine = core.machine ∧
      (received.kind = .inquire → ∃ inquiry, event = .inquire inquiry ∧ inquiry.completed = false) ∧
      (received.kind ≠ .inquire → ∀ inquiry, event ≠ .inquire inquiry)) := by
  unfold Transaction.makeEvent
  by_cases hkind : received.kind = .inquire
  · rw [if_pos hkind]
    apply Action.Post.bind_ends (h.newInquiry hline hkind)
    rintro inquiry core' ⟨hsound, hmachine, hopen⟩
    apply Action.Post.pure
    exact .ok ⟨hsound, hmachine, fun _ => ⟨inquiry, rfl, hopen⟩, fun h => absurd hkind h⟩
  · rw [if_neg hkind]
    obtain ⟨event, hrun, hother⟩ := plainEvent_ok hline hempty hkind
    apply Action.Post.intro
    intro o core' hrun'
    rw [hrun] at hrun'
    obtain ⟨rfl, rfl⟩ := Prod.mk.inj hrun'
    exact .ok ⟨h, rfl, fun h => absurd h hkind, fun _ => hother⟩

/-- After `next` the session is poisoned, or the guard at hand fits. -/
theorem Sound.next (h : Sound start core) {completion : Completion}
    (hfits : Caller.Fits core (.transaction completion)) :
    Action.Post Transaction.next (core, completion)
      (Action.Ends (fun s => s.1.Poisoned) fun event s =>
        Sound start s.1 ∧ Caller.Fits s.1 (Caller.guardAfter s.2 (.ok event))) := by
  unfold Transaction.next
  apply Action.Post.bind_ok (onCore_ok h.check)
  by_cases hinquiry : core.machine.state = .inquiry
  · have hrefuse : Transaction.refuseInquiry core = (.err (.state .notReady), core.invalidate) :=
      if_pos hinquiry
    apply Action.Post.bind_failed (Action.zoom_apply hrefuse) (by simp)
    exact .failed (by simp [Outcome.relabel]) (poisoned_invalidate core)
  have hpass : Transaction.refuseInquiry core = (.ok (), core) := if_neg hinquiry
  apply Action.Post.bind_ok (onCore_ok hpass)
  apply Action.Post.get_bind
  by_cases hdone : completion ≠ .pending
  · rw [if_pos hdone]
    exact .ok ⟨h, fun hpending => absurd hpending hdone⟩
  rw [if_neg hdone]
  obtain rfl : completion = .pending := by simpa using hdone
  have hworking : core.machine.state ≠ .ready := hfits rfl
  unfold Transaction.readNext
  apply Action.Post.get_bind
  apply Action.Post.bind_ends (onCore_ends (h.readEvent (Nat.lt_succ_self _)))
  rintro received ⟨core₁, completion₁⟩ ⟨d, hsame⟩
  obtain rfl : completion₁ = .pending := hsame
  apply Action.Post.bind_ok rfl
  apply Action.Post.bind_ends (onCore_ends (d.sound.makeEvent d.line d.nonempty))
  rintro event ⟨core₂, completion₂⟩ ⟨⟨hsound, hmachine, hevent, hother⟩, hcompletion⟩
  obtain rfl : completion₂ = Transaction.completionOf received .pending := hcompletion
  apply Action.Post.pure
  apply Action.Ends.ok
  refine ⟨hsound, ?_⟩
  by_cases hkind : received.kind = .inquire
  · obtain ⟨inquiry, rfl, hopen⟩ := hevent hkind
    have hpending : Transaction.completionOf received .pending = .pending := by
      simp [Transaction.completionOf, hkind]
    exact ⟨hpending, by rw [hmachine]; exact d.inquire hkind, hopen⟩
  · have hguard : Caller.guardAfter (Transaction.completionOf received .pending) (.ok (some event)) =
        .transaction (Transaction.completionOf received .pending) := by
      cases event with
      | inquire inquiry => exact absurd rfl (hother hkind inquiry)
      | _ => rfl
    show Caller.Fits core₂ _
    rw [hguard]
    intro hpending
    rw [hmachine]
    -- a final response would have settled the completion
    have hfinal : ¬ (received.kind = .ok ∨ received.kind = .err) := by
      intro hfinal
      rw [Transaction.completionOf, if_pos hfinal] at hpending
      cases hcode : received.code <;> rw [hcode] at hpending <;> exact absurd hpending (by simp)
    exact d.progress hworking (fun h => hfinal (Or.inl h)) (fun h => hfinal (Or.inr h))

theorem Sound.checkInquiry (h : Sound start core) (hstate : core.machine.state = .inquiry) :
    Inquiry.check core = (.ok (), core) := by
  rw [Inquiry.check, Action.bind_ok h.check]
  exact requireState_ok hstate

theorem Sound.send (h : Sound start core) (hstate : core.machine.state = .inquiry) (inquiry : Inquiry)
    (bytes : Bytes) :
    Action.Post (Inquiry.send bytes) (core, inquiry)
      (Action.Ends (fun s => s.1.Poisoned) fun _ s =>
        Sound start s.1 ∧ s.1.machine.state = .inquiry ∧ s.2.completed = inquiry.completed) := by
  unfold Inquiry.send
  apply Action.Post.bind_ok (onCore_ok (h.checkInquiry hstate))
  cases hcharge : (checkedAdd usizeMax inquiry.sent bytes.length).filter
      (· ≤ core.maxInquiryBytes) with
  | none =>
      have hrun : Inquiry.charge bytes (core, inquiry) =
          (.err (.limit .capacityExceeded), (core.invalidate, inquiry)) := by
        simp only [Inquiry.charge, hcharge]
      apply Action.Post.bind_failed hrun (by simp)
      exact .failed (by simp [Outcome.relabel]) (poisoned_invalidate core)
  | some total =>
      have hrun : Inquiry.charge bytes (core, inquiry) = (.ok total, (core, inquiry)) := by
        simp only [Inquiry.charge, hcharge]
      apply Action.Post.bind_ok hrun
      have hstream : Action.Post
          (streamData SessionCore.writeAt ClientError.protocol (bytes.length + 1) bytes) core
          (Action.Ends Poisoned fun _ core' => Sound start core' ∧ core'.machine.state = .inquiry) := by
        rw [streamData_eq]
        apply Action.Post.forEach_ends (I := fun c => Sound start c ∧ c.machine.state = .inquiry)
          ⟨h, hstate⟩
        rintro line hline c ⟨hc, hopen⟩
        obtain ⟨piece, -, rfl⟩ := List.mem_map.mp hline
        apply Action.Post.mono (hc.writeAt (Or.inl ⟨piece, rfl⟩))
        intro o c' hends
        apply hends.mono
        rintro u ⟨hc', hsame⟩
        exact ⟨hc', by rw [hsame]; exact hopen⟩
      apply Action.Post.bind_ends (onCore_ends hstream)
      rintro u ⟨core', inquiry'⟩ ⟨⟨hsound, hopen⟩, hsame⟩
      obtain rfl : inquiry' = inquiry := hsame
      exact .ok ⟨hsound, hopen, rfl⟩

/-- The terminator returns to the command, or to the wait for its final response. -/
theorem Sound.finishInquiry (h : Sound start core) (hstate : core.machine.state = .inquiry)
    (cancelled : Bool) : ∃ core', Inquiry.finishInquiry cancelled core = (.ok (), core') ∧
      Sound start core' ∧ core'.machine.state ≠ .ready := by
  obtain ⟨log, lines, haccounts, hphase, hlines⟩ := h.phase
  unfold Phase at hphase
  rw [hstate] at hphase
  obtain ⟨horigin, answers, command, hlog⟩ := hphase
  have hfinish : core.machine.finishInquiry cancelled =
      (.ok (), { core.machine with state := if cancelled then .awaitFinal else .command }) := by
    simp [ClientMachine.finishInquiry, hstate, horigin]
  refine ⟨{ core with machine :=
    { core.machine with state := if cancelled then .awaitFinal else .command } }, ?_, ?_, ?_⟩
  · rw [Inquiry.finishInquiry, hfinish]
    rfl
  · refine ⟨h.standing, h.opened, h.certain,
      ⟨log, lines, ⟨haccounts.log, haccounts.written⟩, ?_, hlines⟩, h.representable⟩
    cases cancelled with
    | true => exact ⟨answers, command, hlog⟩
    | false => exact ⟨answers, command, hlog⟩
  · cases cancelled <;> simp

theorem Sound.complete (h : Sound start core) (hstate : core.machine.state = .inquiry)
    (inquiry : Inquiry) (cancelled : Bool) :
    Action.Post (Inquiry.complete cancelled) (core, inquiry)
      (Action.Ends (fun s => s.1.Poisoned) fun _ s =>
        Sound start s.1 ∧ s.1.machine.state ≠ .ready ∧ s.2.completed = true) := by
  unfold Inquiry.complete
  apply Action.Post.bind_ok (onCore_ok (h.checkInquiry hstate))
  have hwrite : Action.Post (SessionCore.writeAt (Inquiry.terminator cancelled)) core
      (Action.Ends Poisoned fun _ core' => Sound start core' ∧ core'.machine = core.machine) :=
    h.writeAt (Or.inr ⟨cancelled, rfl⟩)
  apply Action.Post.bind_ends (onCore_ends hwrite)
  rintro u ⟨core', inquiry'⟩ ⟨⟨hsound, hmachine⟩, hsame⟩
  obtain rfl : inquiry' = inquiry := hsame
  obtain ⟨core'', hfinish, hsound', hstate'⟩ :=
    hsound.finishInquiry (by rw [hmachine]; exact hstate) cancelled
  apply Action.Post.bind_ok (onCore_ok hfinish)
  exact .ok ⟨hsound', hstate', rfl⟩

end Operations

end SessionCore

namespace Caller

/-! ## §4  Steps of a poisoned session -/

section Steps

variable {start : SessionCore} {caller caller' : Caller} {step : ClientStep}
  {o : Outcome ClientError Unit}

/-- The operations of a guard on a poisoned session. -/
theorem refused_onCore {γ α : Type} {core : SessionCore} {e : ClientError}
    {x : Action SessionCore ClientError Unit} (hx : x core = (.err e, core.invalidate)) (rest : γ)
    (f : Unit → Action (SessionCore × γ) ClientError α) :
    (onCore x >>= f) (core, rest) = (.err e, (core.invalidate, rest)) := by
  have hfail : onCore x (core, rest) = (.err e, (core.invalidate, rest)) := Action.zoom_apply hx
  exact Action.bind_failed hfail (by simp)

theorem checkInquiry_poisoned {core : SessionCore} (h : core.Poisoned) :
    Inquiry.check core = (.err (.state .unusable), core.invalidate) := by
  rw [Inquiry.check, Action.bind_failed h.check (by simp)]
  rfl

/-- A poisoned session is left as it is, or closed. -/
def Kept (core core' : SessionCore) : Prop :=
  core'.Poisoned ∧ core'.channel.trace = core.channel.trace

theorem kept_invalidate (core : SessionCore) : Kept core core.invalidate :=
  ⟨poisoned_invalidate core, rfl⟩

theorem kept_drop {core core' : SessionCore} (h : Kept core core') :
    Kept core (Transaction.drop core') := by
  unfold Transaction.drop
  split
  · exact ⟨poisoned_invalidate core', h.2⟩
  · exact h

theorem kept_dropInquiry {core core' : SessionCore} (inquiry : Inquiry) (h : Kept core core') :
    Kept core (Inquiry.drop (core', inquiry)) := by
  unfold Inquiry.drop
  split
  · exact h
  · exact ⟨poisoned_invalidate core', h.2⟩

/-- No step reads or writes once the session is poisoned. -/
theorem step_poisoned (h : caller.core.Poisoned) (hstep : Stepped caller step o caller') :
    Kept caller.core caller'.core := by
  cases hstep with
  | command core command sensitivity => exact (h.refused _).2
  | next core completion =>
      have hnext : Transaction.next (core, completion) = (_, (core.invalidate, completion)) :=
        refused_onCore h.check completion _
      show Kept core (Transaction.next (core, completion)).2.1
      rw [hnext]
      exact kept_invalidate core
  | finish core completion => exact kept_drop (h.refused _).2
  | dropTransaction core completion => exact kept_drop ⟨h, rfl⟩
  | forgetTransaction core completion => exact ⟨h, rfl⟩
  | send core completion inquiry bytes =>
      have hsend : Inquiry.send bytes (core, inquiry) = (_, (core.invalidate, inquiry)) :=
        refused_onCore (checkInquiry_poisoned h) inquiry _
      show Kept core (Inquiry.send bytes (core, inquiry)).2.1
      rw [hsend]
      exact kept_invalidate core
  | complete core completion inquiry cancelled =>
      have hcomplete : Inquiry.complete cancelled (core, inquiry) = (_, (core.invalidate, inquiry)) :=
        refused_onCore (checkInquiry_poisoned h) inquiry _
      show Kept core (Inquiry.drop (Inquiry.complete cancelled (core, inquiry)).2)
      rw [hcomplete]
      exact kept_dropInquiry inquiry (kept_invalidate core)
  | dropInquiry core completion inquiry => exact kept_dropInquiry inquiry ⟨h, rfl⟩
  | forgetInquiry core completion inquiry => exact ⟨h, rfl⟩

/-! ## §5  Steps of a sound session -/

theorem failed_ending {α : Type} {o : Outcome ClientError α} : (ending o).Failed ↔ o.Failed := by
  cases o <;> simp [ending]

/-- A step that is not the drop of a guard poisons only by failing. -/
theorem settled_of_ends (hdrop : step ≠ .dropTransaction) (hdrop' : step ≠ .dropInquiry)
    (hfail : o.Failed → caller'.core.Poisoned)
    (hok : ¬ o.Failed → Sound start caller'.core ∧ Fits caller'.core caller'.guard) :
    Settled start caller' ∧ (caller.Poisons step o → caller'.core.Poisoned) := by
  constructor
  · by_cases ho : o.Failed
    · exact Or.inl (hfail ho)
    · exact Or.inr (hok ho)
  · rintro (⟨ho, -⟩ | ⟨h, -⟩ | h)
    · exact hfail ho
    · exact absurd h hdrop
    · exact absurd h hdrop'

theorem drop_cases (core : SessionCore) :
    (Transaction.drop core = core ∧ core.machine.state = .ready) ∨
      (Transaction.drop core).Poisoned := by
  unfold Transaction.drop
  by_cases h : core.ioUncertain = true ∨ core.machine.state ≠ .ready
  · rw [if_pos h]
    exact Or.inr (poisoned_invalidate core)
  · rw [if_neg h]
    simp only [not_or, not_not] at h
    exact Or.inl ⟨rfl, h.2⟩

theorem settled_drop {core : SessionCore} (h : Sound start core) :
    Settled start ⟨Transaction.drop core, .free⟩ := by
  rcases drop_cases core with ⟨hdrop, -⟩ | hdrop
  · rw [hdrop]
    exact Or.inr ⟨h, trivial⟩
  · exact Or.inl hdrop

theorem drop_pending {core : SessionCore} (hfits : Fits core (.transaction .pending)) :
    (Transaction.drop core).Poisoned := by
  rcases drop_cases core with ⟨-, hready⟩ | hdrop
  · exact absurd hready (hfits rfl)
  · exact hdrop

/-- A step keeps the session sound, or poisons it; the steps that should poison
it do. -/
theorem step_sound (h : Sound start caller.core) (hfits : Fits caller.core caller.guard)
    (hstep : Stepped caller step o caller') :
    Settled start caller' ∧ (caller.Poisons step o → caller'.core.Poisoned) := by
  cases hstep with
  | command core command sensitivity =>
      rcases h.commandWith command sensitivity with ⟨ho, hcore, hready, hlong⟩ | hends
      · -- a command that does not fit in a line is refused before anything is done
        rw [ho, hcore]
        refine ⟨Or.inr ⟨h, trivial⟩, ?_⟩
        rintro (⟨-, hnot⟩ | ⟨hdrop, -⟩ | hdrop)
        · exact absurd (Or.inr ⟨command, sensitivity, rfl, hready, rfl, hlong⟩) hnot
        · exact absurd hdrop (by simp)
        · exact absurd hdrop (by simp)
      · apply settled_of_ends (by simp) (by simp) hends.1
        intro ho
        obtain ⟨u, hok⟩ := Outcome.ok_of_not_failed ho
        obtain ⟨hsound, hstate⟩ := hends.2 u hok
        refine ⟨hsound, ?_⟩
        show Fits _ (guardOf (commandWith command sensitivity core).1)
        rw [hok]
        intro _
        rw [hstate]
        simp
  | next core completion =>
      have hends := h.next hfits
      apply settled_of_ends (by simp) (by simp)
      · intro ho
        exact hends.1 (failed_ending.mp ho)
      · intro ho
        obtain ⟨event, hok⟩ := Outcome.ok_of_not_failed (failed_ending.not.mp ho)
        obtain ⟨hsound, hguard⟩ := hends.2 event hok
        rw [← hok] at hguard
        exact ⟨hsound, hguard⟩
  | finish core completion =>
      have hrun : Transaction.finish completion core =
          (Transaction.resultOf completion, Transaction.drop core) := by
        unfold Transaction.finish
        rw [Action.bind_ok h.check]
        rfl
      rw [hrun]
      refine ⟨settled_drop h, ?_⟩
      rintro (⟨ho, hnot⟩ | ⟨hdrop, -⟩ | hdrop)
      · cases completion with
        | pending => exact drop_pending hfits
        | success => exact absurd ho (by simp [Transaction.resultOf])
        | remote code => exact absurd (Or.inl ⟨code, rfl⟩) hnot
      · exact absurd hdrop (by simp)
      · exact absurd hdrop (by simp)
  | dropTransaction core completion =>
      refine ⟨settled_drop h, ?_⟩
      rintro (⟨ho, -⟩ | ⟨-, hguard⟩ | hdrop)
      · exact absurd ho (by simp)
      · obtain rfl : completion = .pending := by simpa using hguard
        exact drop_pending hfits
      · exact absurd hdrop (by simp)
  | forgetTransaction core completion =>
      apply settled_of_ends (by simp) (by simp) (by simp)
      intro _
      exact ⟨h, trivial⟩
  | send core completion inquiry bytes =>
      obtain ⟨hpending, hstate, hopen⟩ := hfits
      have hends := h.send hstate inquiry bytes
      apply settled_of_ends (by simp) (by simp) hends.1
      intro ho
      obtain ⟨u, hok⟩ := Outcome.ok_of_not_failed ho
      obtain ⟨hsound, hstate', hopen'⟩ := hends.2 u hok
      exact ⟨hsound, hpending, hstate', by rw [hopen', hopen]⟩
  | complete core completion inquiry cancelled =>
      obtain ⟨hpending, hstate, hopen⟩ := hfits
      have hends := h.complete hstate inquiry cancelled
      apply settled_of_ends (by simp) (by simp)
      · intro ho
        exact (kept_dropInquiry _ ⟨hends.1 ho, rfl⟩).1
      · intro ho
        obtain ⟨u, hok⟩ := Outcome.ok_of_not_failed ho
        obtain ⟨hsound, hstate', hdone⟩ := hends.2 u hok
        have hdrop : (Inquiry.finish cancelled inquiry core).2 =
            (Inquiry.complete cancelled (core, inquiry)).2.1 := if_pos hdone
        rw [hdrop]
        exact ⟨hsound, fun _ => hstate'⟩
  | dropInquiry core completion inquiry =>
      obtain ⟨-, -, hopen⟩ := hfits
      have hdrop : Inquiry.drop (core, inquiry) = core.invalidate := if_neg (by simp [hopen])
      rw [hdrop]
      exact ⟨Or.inl (poisoned_invalidate core), fun _ => poisoned_invalidate core⟩
  | forgetInquiry core completion inquiry =>
      apply settled_of_ends (by simp) (by simp) (by simp)
      obtain ⟨-, hstate, -⟩ := hfits
      intro _
      refine ⟨h, fun _ => ?_⟩
      rw [hstate]
      simp

/-! ## §6  Runs -/

theorem Settled.stepped (h : Settled start caller) (hstep : caller.step step = some (o, caller')) :
    Settled start caller' ∧ (caller.Poisons step o → caller'.core.Poisoned) := by
  have hstepped := stepped_of_step hstep
  rcases h with hpoisoned | ⟨hsound, hfits⟩
  · have hkept := step_poisoned hpoisoned hstepped
    exact ⟨Or.inl hkept.1, fun _ => hkept.1⟩
  · exact step_sound hsound hfits hstepped

theorem Settled.reaches {first : Caller} (h : Settled start first)
    (hreach : Reaches first caller) : Settled start caller := by
  induction hreach with
  | refl => exact h
  | tail step o _ hstep ih => exact (ih.stepped hstep).1

/-- A poisoned session stays poisoned, and its stream is left alone. -/
theorem poisoned_reaches {start : Caller} (h : start.core.Poisoned)
    (hreach : Reaches start caller) : Kept start.core caller.core := by
  induction hreach with
  | refl => exact ⟨h, rfl⟩
  | tail step o _ hstep ih =>
      have hkept := step_poisoned ih.1 (stepped_of_step hstep)
      exact ⟨hkept.1, hkept.2.trans ih.2⟩

theorem Fresh.settled (h : caller.Fresh) : Settled caller.core caller := by
  right
  refine ⟨⟨h.standing, h.opened, h.certain, ⟨[], [], ⟨?_, ?_⟩, ?_, .nil⟩, h.representable⟩, ?_⟩
  · exact (List.append_nil _).symm
  · exact (List.append_nil _).symm
  · unfold Phase
    rw [h.ready]
    exact ⟨[], rfl⟩
  · rw [h.guard]
    trivial

/-- **Poisoning is permanent.** In every run of a fresh session, whatever was logged
before, after a step that is dropped, that fails (other than by an `ERR` of the server
or a command that is too long), or that drops a guard before its end, the session is
not usable and the stream is neither read nor written again. A session that is usable
has an open stream; the lines written since its start are those of its commands and of
answers to inquiries, and every command was answered once. -/
theorem poisoning_permanent {start : Caller} (hstart : start.Fresh)
    (hreach : Reaches start caller) :
    (∀ step o after later, caller.step step = some (o, after) → caller.Poisons step o →
      Reaches after later →
        later.core.isUsable = false ∧ later.core.channel.trace = after.core.channel.trace) ∧
    (caller.core.isUsable = true →
      (∃ (answers : Answers) (lines : List Bytes),
        caller.core.log = start.core.log ++ answers.log ∧
        written caller.core.channel.trace =
          written start.core.channel.trace ++ lines.flatten ∧
        LogLines answers.log lines) ∧
        caller.core.channel.stream.isSome = true) := by
  have hsettled := hstart.settled.reaches hreach
  constructor
  · intro step o after later hstep hpoisons hlater
    have hpoisoned := (hsettled.stepped hstep).2 hpoisons
    have hkept := poisoned_reaches hpoisoned hlater
    exact ⟨hkept.1.not_usable, hkept.2⟩
  · intro husable
    rcases hsettled with hpoisoned | ⟨hsound, -⟩
    · rw [hpoisoned.not_usable] at husable
      exact absurd husable (by simp)
    · have hready : caller.core.machine.state = .ready := by
        simp only [isUsable, Bool.decide_and, Bool.and_eq_true, decide_eq_true_eq] at husable
        exact husable.2
      obtain ⟨log, lines, haccounts, hphase, hlines⟩ := hsound.phase
      unfold Phase at hphase
      rw [hready] at hphase
      obtain ⟨answers, rfl⟩ := hphase
      exact ⟨⟨answers, lines, haccounts.log, haccounts.written, hlines⟩, hsound.opened⟩

/-- A session whose first write is dropped while it is pending. -/
def cancelled : Caller where
  core :=
    { channel := Channel.new ⟨[], [.dropped 3]⟩ []
      machine := ⟨.ready, .greeting⟩
      ioUncertain := false
      sensitivity := .public_
      commandTimeout := 30
      inquiryTimeout := 30
      maxInquiryBytes := 1024
      horizon := []
      allocations := []
      log := [] }
  guard := .free

def nop : Command := ⟨"NOP", [], rfl, isCleanLine_nil⟩

theorem cancelled_fresh : cancelled.Fresh :=
  ⟨standing_new _ _, rfl, rfl, rfl, ⟨rfl, by decide⟩, rfl⟩

theorem poisoning_permanent_cancelled :
    cancelled.core.isUsable = true ∧
    ∃ after, cancelled.step (.command nop .public_) = some (.dropped, after) ∧
      after.core.isUsable = false := by
  refine ⟨by decide, ?_⟩
  have hdropped : (cancelled.step (.command nop .public_)).map Prod.fst = some .dropped := by
    decide +kernel
  obtain ⟨⟨o, after⟩, hstep, ho⟩ := Option.map_eq_some_iff.mp hdropped
  obtain rfl : o = .dropped := ho
  refine ⟨after, hstep, ?_⟩
  have h := (poisoning_permanent cancelled_fresh (.refl cancelled)).1
  refine (h _ _ after after hstep (Or.inl ⟨by simp, ?_⟩) (.refl after)).1
  rintro (⟨code, hcode⟩ | ⟨_, _, -, -, hlong, -⟩)
  · exact absurd hcode (by simp)
  · exact absurd hlong (by simp)

end Steps

end Caller

end Assuan
