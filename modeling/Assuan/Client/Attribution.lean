import Assuan.Client.Poison

/-!
# Whose response it is

Assuan has no request identifiers. `command_with` therefore reads whatever is
left in the read-ahead buffer before it writes, and the machine, in `Ready`,
takes comments and empty lines and nothing else. What a caller is shown after
the write then came in after the write.
-/

namespace Assuan

open Channel LineBuffer SessionCore

/-! ## §1  Bytes accounted for -/

/-- Of what was held when the traffic was `base` and of what came in since, all
has gone into lines or is still unread. -/
def Since (held : Bytes) (base : List Io) (core : SessionCore) : Prop :=
  Standing core.channel ∧ ∃ later taken, core.channel.trace = base ++ later ∧
    held ++ arrived later = taken ++ core.channel.unreadBytes

/-- The line that was read last. -/
def LastLine (held : Bytes) (base : List Io) (core : SessionCore) (seg : Bytes) : Prop :=
  ∃ later taken, core.channel.trace = base ++ later ∧
    held ++ arrived later = taken ++ seg ++ core.channel.unreadBytes

section Accounts

variable {held : Bytes} {base : List Io} {core core' : SessionCore}

theorem since_start (h : Standing core.channel) :
    Since core.channel.unreadBytes core.channel.trace core :=
  ⟨h, [], [], by simp, by simp [arrived]⟩

/-- What does not touch the stream or the buffer keeps the accounts. -/
theorem Since.same (h : Since held base core) (hch : core'.channel = core.channel) :
    Since held base core' := by
  unfold Since
  rw [hch]
  exact h

theorem Since.takes {rs : List Bytes} {seg : Bytes} {parsed : ServerLine} {received : Received}
    (h : Since held base core) (t : Takes core rs seg parsed received core')
    (htrace : core'.channel.trace = core.channel.trace ++ rs.map .read) :
    Since held base core' ∧ LastLine held base core' seg := by
  obtain ⟨-, later, taken, hlater, htaken⟩ := h
  have hbase : core'.channel.trace = base ++ (later ++ rs.map .read) := by
    rw [htrace, hlater, List.append_assoc]
  have hsplit : held ++ arrived (later ++ rs.map .read) =
      taken ++ seg ++ core'.channel.unreadBytes := by
    rw [arrived_append, arrived_reads, ← List.append_assoc, htaken, List.append_assoc, t.split,
      List.append_assoc]
  exact ⟨⟨t.standing, _, _, hbase, hsplit⟩, _, _, hbase, hsplit⟩

/-- What a read by `next` leaves behind. -/
structure Shown (held : Bytes) (base : List Io) (core : SessionCore) (received : Received)
    (core' : SessionCore) : Prop where
  since : Since held base core'
  sensitivity : core'.sensitivity = core.sensitivity
  line : ∃ seg parsed text, LastLine held base core' seg ∧ Terminated lf seg ∧
    parseServerLine (stripTerminator seg) = .ok parsed ∧
    core'.channel.receivedLine = some text ∧ Presents parsed received text

theorem Since.read (h : Since held base core) :
    Action.Post SessionCore.read core (Action.Ends Poisoned (Shown held base core)) := by
  by_cases hlive : core.Poisoned
  · apply Action.Post.intro
    intro o core' hrun
    rw [hlive.read] at hrun
    obtain ⟨rfl, rfl⟩ := Prod.mk.inj hrun
    exact .failed (by simp) (poisoned_invalidate core)
  · apply Action.Post.mono (read_cases h.1 hlive)
    rintro o core' ⟨rs, htrace, hend⟩
    apply hend.ends.mono
    rintro received ⟨seg, parsed, t⟩
    obtain ⟨hsince, hlast⟩ := h.takes t htrace
    obtain ⟨text, htext, hpresents⟩ := t.presents
    exact ⟨hsince, by rw [t.rest], seg, parsed, text, hlast, t.terminated, t.parses, htext, hpresents⟩

theorem Since.writeAt (h : Since held base core) (bytes : Bytes) :
    Action.Post (SessionCore.writeAt bytes) core
      (Action.Ends Poisoned fun _ core' => Since held base core') := by
  by_cases hlive : core.Poisoned
  · apply Action.Post.intro
    intro o core' hrun
    rw [hlive.writeAt] at hrun
    obtain ⟨rfl, rfl⟩ := Prod.mk.inj hrun
    exact .failed (by simp) (poisoned_invalidate core)
  · apply Action.Post.mono (writeAt_cases h.1 hlive bytes)
    intro o core' w
    refine ⟨w.failed, ?_⟩
    rintro u rfl
    obtain ⟨ch, rfl, hstanding, -, htrace, hunread⟩ := w.sent rfl
    obtain ⟨-, later, taken, hlater, htaken⟩ := h
    refine ⟨hstanding, later ++ [.wrote bytes], taken, ?_, ?_⟩
    · show ch.trace = _
      rw [htrace, hlater, List.append_assoc]
    · show _ = taken ++ ch.unreadBytes
      rw [arrived_append, arrived_wrote, List.append_nil, htaken, hunread]

/-! ## §2  Draining -/

/-- The lines a machine in `Ready` takes. -/
def Idle (seg : Bytes) : Prop :=
  seg.length ≤ maxLineBytes ∧ ∃ parsed, parseServerLine (stripTerminator seg) = .ok parsed ∧
    (parsed.kind = .comment ∨ parsed.kind = .empty)

/-- Something other than comments and empty lines: a complete line that is not one
of them, or a line that is too long already. -/
def Foreign (input : Bytes) : Prop :=
  (∃ seg ∈ (splitAfter lf input).1, ¬ Idle seg) ∨ maxLineBytes ≤ (splitAfter lf input).2.length

theorem ClientMachine.receive_idle {machine machine' : ClientMachine} {kind : LineKind}
    (h : machine.state = .ready) (hok : machine.receive kind = (.ok (), machine')) :
    kind = .comment ∨ kind = .empty := by
  unfold ClientMachine.receive at hok
  cases kind <;> simp_all

/-- Where the drain loop can stop. `lines` were received, and `part` is what is
left of the input. -/
structure Drained (core : SessionCore) (reads : List Bytes) (o : Outcome ClientError Unit)
    (core' : SessionCore) : Prop where
  trace : core'.channel.trace = core.channel.trace ++ reads.map .read
  safe : o ≠ .panic
  refused : ∀ e, o = .err e → core'.Invalidated
  idle : (∀ e, o ≠ .err e) → ∃ (lines : List Bytes) (part : Bytes),
    core.channel.unreadBytes ++ reads.flatten = lines.flatten ++ part ∧
    (∀ seg ∈ lines, Terminated lf seg ∧ Idle seg) ∧ lf ∉ part ∧ part.length < maxLineBytes ∧
    (o = .ok () → part = [])
  done : o = .ok () → core'.channel.hasBufferedInput = false ∧ core'.machine = core.machine ∧
    core'.ioUncertain = false ∧ Standing core'.channel

theorem hasBufferedInput_eq_false (h : Standing core.channel) :
    core.channel.hasBufferedInput = false ↔ core.channel.unreadBytes = [] := by
  obtain ⟨stream, line, unread, clock, trace, hunread, hch⟩ := h
  rw [hch, unreadBytes_standing hunread]
  simp [hasBufferedInput, standing]

theorem drain_cases {fuel : ℕ} (hstanding : Standing core.channel)
    (hcertain : core.ioUncertain = false) (hready : core.machine.state = .ready) (hfuel : core.channel.supply < fuel) :
    Action.Post (drain fuel) core fun o core' =>
      ∃ reads, Drained core reads o core' := by
  induction fuel generalizing core with
  | zero => exact absurd hfuel (Nat.not_lt_zero _)
  | succ fuel ih =>
      rw [drain]
      apply Action.Post.get_bind
      by_cases hahead : core.channel.hasBufferedInput = true
      · -- a line that was read ahead is taken; in `Ready` it can only be idle
        rw [if_pos hahead]
        have hlive : ¬ core.Poisoned := live_of_certain hcertain (by simp [hready])
        apply Action.Post.bind (read_cases hstanding hlive)
        · rintro received core₁ ⟨rs, htrace, hend⟩
          cases hend with
          | took seg parsed t =>
              have hsame := ClientMachine.receive_of_ready hready t.machine
              have hkind := ClientMachine.receive_idle hready t.machine
              have hcertain₁ : core₁.ioUncertain = false := by rw [t.rest]
              have hfuel₁ := Nat.lt_of_lt_of_le t.supply (Nat.le_of_lt_succ hfuel)
              apply Action.Post.mono
                (ih t.standing hcertain₁ (by rw [hsame]; exact hready) hfuel₁)
              rintro o core' ⟨reads, d⟩
              refine ⟨rs ++ reads, ?_, d.safe, d.refused, ?_, ?_⟩
              · rw [d.trace, htrace, List.map_append, List.append_assoc]
              · intro hok
                obtain ⟨lines, part, hsplit, hlines, hlf, hlen, hdone⟩ := d.idle hok
                refine ⟨seg :: lines, part, ?_, ?_, hlf, hlen, hdone⟩
                · rw [List.flatten_append, ← List.append_assoc, t.split, List.append_assoc, hsplit,
                    List.flatten_cons, List.append_assoc]
                · rw [List.forall_mem_cons]
                  exact ⟨⟨t.terminated, t.fits, parsed, t.parses, hkind⟩, hlines⟩
              · intro hok
                obtain ⟨hempty, hmachine, hflag, hstanding'⟩ := d.done hok
                exact ⟨hempty, hmachine.trans hsame, hflag, hstanding'⟩
        · rintro o core' ho ⟨rs, htrace, hend⟩
          refine ⟨rs, ?_⟩
          cases hend with
          | took seg parsed t => exact absurd ho (by simp)
          | refused e hinvalid _ =>
              exact ⟨htrace, by simp [Outcome.relabel], fun _ _ => hinvalid,
                fun h => absurd rfl (h e), by simp [Outcome.relabel]⟩
          | dropped hflag _ hnone hlen =>
              exact ⟨htrace, by simp [Outcome.relabel], by simp [Outcome.relabel],
                fun _ => ⟨[], _, by simp, by simp, hnone, hlen, by simp [Outcome.relabel]⟩,
                by simp [Outcome.relabel]⟩
      · -- nothing is read ahead, and nothing is read
        rw [if_neg hahead]
        have hempty : core.channel.hasBufferedInput = false := by simpa using hahead
        have hnil := (hasBufferedInput_eq_false hstanding).mp hempty
        refine ⟨[], by simp, by simp, by simp, fun _ => ⟨[], [], ?_, by simp, by simp, by decide,
          fun _ => rfl⟩, fun _ => ⟨hempty, rfl, hcertain, hstanding⟩⟩
        rw [hnil]
        rfl

/-- A loop that was not refused has seen nothing foreign. -/
theorem Drained.not_foreign {reads : List Bytes} {o : Outcome ClientError Unit}
    (d : Drained core reads o core') (ho : ∀ e, o ≠ .err e) :
    ¬ Foreign (core.channel.unreadBytes ++ reads.flatten) := by
  obtain ⟨lines, part, hsplit, hlines, hlf, hlen, -⟩ := d.idle ho
  have hcut : splitAfter lf (lines.flatten ++ part) = (lines, part) := by
    rw [splitAfter_flatten part fun seg hseg => (hlines seg hseg).1,
      splitAfter_of_none (firstSegment_eq_none.mpr hlf), List.append_nil]
  unfold Foreign
  rw [hsplit, hcut]
  rintro (⟨seg, hseg, hidle⟩ | hlong)
  · exact hidle (hlines seg hseg).2
  · exact absurd hlen (Nat.not_lt.mpr hlong)

end Accounts

/-! ## §3  Every step keeps the accounts -/

/-- Refused from now on, or accounted for. -/
def Tracked (held : Bytes) (base : List Io) (core : SessionCore) : Prop :=
  core.Poisoned ∨ Since held base core

section Steps

open Assuan.Action

variable {held : Bytes} {base : List Io} {core core' : SessionCore} {α γ : Type}

theorem tracked_invalidate (core : SessionCore) : Tracked held base core.invalidate :=
  Or.inl (poisoned_invalidate core)

theorem tracked_of_ends {o : Outcome ClientError α} {P : α → SessionCore → Prop}
    (h : Ends Poisoned P o core) (hsince : ∀ a, P a core → Since held base core) :
    Tracked held base core := by
  rcases o.ok_or_failed with ⟨a, ha⟩ | ho
  · exact Or.inr (hsince a (h.2 a ha))
  · exact Or.inl (h.1 ho)

theorem Tracked.same (h : Tracked held base core) (hch : core'.channel = core.channel)
    (hpoisoned : core.Poisoned → core'.Poisoned) : Tracked held base core' := by
  rcases h with h | h
  · exact Or.inl (hpoisoned h)
  · exact Or.inr (h.same hch)

theorem keeps_check_of {I : SessionCore → Prop} (h : ∀ core, I core → I core.invalidate) :
    Keeps I check := by
  intro core hcore
  unfold check
  split
  · exact h core hcore
  · exact hcore

theorem keeps_requireState_of {I : SessionCore → Prop} (h : ∀ core, I core → I core.invalidate)
    (wanted : ClientState) : Keeps I (requireState wanted) := by
  intro core hcore
  unfold requireState
  split
  · exact hcore
  · exact h core hcore

theorem keeps_check : Keeps (Tracked held base) check :=
  keeps_check_of fun core _ => tracked_invalidate core

theorem keeps_requireState (wanted : ClientState) :
    Keeps (Tracked held base) (requireState wanted) :=
  keeps_requireState_of (fun core _ => tracked_invalidate core) wanted

theorem keeps_read : Keeps (Tracked held base) SessionCore.read := by
  rintro core (h | h)
  · rw [h.read]
    exact tracked_invalidate core
  · exact tracked_of_ends h.read fun _ s => s.since

theorem keeps_writeAt (bytes : Bytes) : Keeps (Tracked held base) (SessionCore.writeAt bytes) := by
  rintro core (h | h)
  · rw [h.writeAt]
    exact tracked_invalidate core
  · exact tracked_of_ends (h.writeAt bytes) fun _ s => s

theorem keeps_drain (fuel : ℕ) : Keeps (Tracked held base) (drain fuel) := by
  induction fuel with
  | zero => exact keeps_lift _
  | succ fuel ih =>
      rw [drain]
      refine keeps_get.bind ?_
      intro core
      split
      · exact keeps_read.bind fun _ => ih
      · exact keeps_pure ()

theorem keeps_deadline (duration : ℕ) : Keeps (Tracked held base) (deadline duration) := by
  unfold deadline
  split
  · exact keeps_lift _
  · intro core h
    exact h.same rfl id

theorem keeps_beginCommand : Keeps (Tracked held base) beginCommand := by
  intro core h
  refine Tracked.same h rfl ?_
  rintro (hflag | hstate | hstate)
  · exact Or.inl hflag
  · exact Or.inr (Or.inl (by simp [beginCommand, ClientMachine.beginCommand, hstate]))
  · exact Or.inr (Or.inr (by simp [beginCommand, ClientMachine.beginCommand, hstate]))

theorem keeps_commandWith (command : Command) (sensitivity : Sensitivity) :
    Keeps (Tracked held base) (commandWith command sensitivity) := by
  unfold commandWith
  refine keeps_check.bind ?_
  intro _
  refine (keeps_requireState _).bind ?_
  intro _
  refine (keeps_lift _).bind ?_
  intro bytes
  refine keeps_get.bind ?_
  intro core
  refine (keeps_deadline _).bind ?_
  intro _
  refine (keeps_drain _).bind ?_
  intro _
  refine (keeps_modify fun core h => h.same rfl id).bind ?_
  intro _
  refine keeps_beginCommand.bind ?_
  intro _
  refine (keeps_modify fun core h => h.same rfl id).bind ?_
  intro _
  exact keeps_writeAt bytes

theorem keeps_readEvent (fuel : ℕ) : Keeps (Tracked held base) (Transaction.readEvent fuel) := by
  induction fuel with
  | zero => exact keeps_lift _
  | succ fuel ih =>
      refine keeps_read.bind ?_
      intro received
      split
      · exact keeps_pure received
      · exact ih

theorem keeps_makeEvent (received : Received) :
    Keeps (Tracked held base) (Transaction.makeEvent received) := by
  have hinquiry : Keeps (Tracked held base) (Transaction.newInquiry received) := by
    have hallocate : Keeps (Tracked held base) Transaction.allocate := fun core h => h.same rfl id
    have hinstant : Keeps (Tracked held base) checkedInstant := fun core h => h.same rfl id
    refine Keeps.onError (fun core _ => tracked_invalidate core) ?_
    refine hallocate.bind ?_
    intro _
    refine keeps_get.bind ?_
    intro core
    refine (keeps_lift _).bind ?_
    intro line
    refine (keeps_lift _).bind ?_
    intro keyword
    refine (keeps_lift _).bind ?_
    intro metadata
    refine (keeps_lift _).bind ?_
    intro args
    refine (keeps_lift _).bind ?_
    intro metadata'
    refine hinstant.bind ?_
    intro _
    exact keeps_pure _
  have hplain : Keeps (Tracked held base) (Transaction.plainEvent received) := by
    refine keeps_get.bind ?_
    intro core
    refine (keeps_lift _).bind ?_
    intro line
    refine (keeps_lift _).bind ?_
    intro payload
    exact keeps_lift _
  unfold Transaction.makeEvent
  split
  · exact hinquiry.bind fun _ => keeps_pure _
  · exact hplain

/-- An operation of a guard on its core. -/
theorem keeps_onCore {I : SessionCore → Prop} {x : Action SessionCore ClientError α}
    (h : Keeps I x) :
    Keeps (fun s : SessionCore × γ => I s.1) (onCore x : Action (SessionCore × γ) ClientError α) :=
  fun s hs => h s.1 hs

theorem keeps_next : Keeps (fun s : SessionCore × Completion => Tracked held base s.1)
    Transaction.next := by
  have hrefuse : Keeps (Tracked held base) Transaction.refuseInquiry := by
    intro core h
    unfold Transaction.refuseInquiry
    split
    · exact tracked_invalidate core
    · exact h
  unfold Transaction.next
  refine (keeps_onCore keeps_check).bind ?_
  intro _
  refine (keeps_onCore hrefuse).bind ?_
  intro _
  refine keeps_get.bind ?_
  intro s
  split
  · exact keeps_pure none
  · refine keeps_get.bind ?_
    intro s
    refine (keeps_onCore (keeps_readEvent _)).bind ?_
    intro received
    have hsettle : Keeps (fun s : SessionCore × Completion => Tracked held base s.1)
        (Action.modify fun s => (s.1, Transaction.completionOf received s.2) :
          Action (SessionCore × Completion) ClientError Unit) := fun s h => h
    refine hsettle.bind ?_
    intro _
    refine (keeps_onCore (keeps_makeEvent received)).bind ?_
    intro event
    exact keeps_pure _

theorem tracked_drop (h : Tracked held base core) : Tracked held base (Transaction.drop core) := by
  unfold Transaction.drop
  split
  · exact tracked_invalidate core
  · exact h

theorem keeps_finish (completion : Completion) :
    Keeps (Tracked held base) (Transaction.finish completion) := by
  have hbody : Keeps (Tracked held base) (do
      SessionCore.check
      Action.lift (Transaction.resultOf completion) : Action SessionCore ClientError Unit) :=
    keeps_check.bind fun _ => keeps_lift _
  intro core h
  exact tracked_drop (hbody core h)

theorem keeps_checkInquiry : Keeps (Tracked held base) Inquiry.check :=
  keeps_check.bind fun _ => keeps_requireState _

/-- What invalidation and writing keep of the core, and counting of the guard, is
kept by `send`. -/
theorem keeps_send_of {I : SessionCore → Prop} {K : Inquiry → Prop}
    (hinvalid : ∀ core, I core → I core.invalidate)
    (hwrite : ∀ line, Keeps I (SessionCore.writeAt line))
    (hsent : ∀ inquiry total, K inquiry → K { inquiry with sent := total }) (bytes : Bytes) :
    Keeps (fun s : SessionCore × Inquiry => I s.1 ∧ K s.2) (Inquiry.send bytes) := by
  have hcore : ∀ {x : Action SessionCore ClientError Unit}, Keeps I x →
      Keeps (fun s : SessionCore × Inquiry => I s.1 ∧ K s.2) (onCore x) :=
    fun hx s hs => ⟨hx s.1 hs.1, hs.2⟩
  have hcharge : Keeps (fun s : SessionCore × Inquiry => I s.1 ∧ K s.2)
      (Inquiry.charge bytes) := by
    intro s hs
    unfold Inquiry.charge
    split
    · exact hs
    · exact ⟨hinvalid s.1 hs.1, hs.2⟩
  have hstream : Keeps I
      (streamData SessionCore.writeAt ClientError.protocol (bytes.length + 1) bytes) := by
    rw [streamData_eq]
    exact Keeps.forEach fun line _ => hwrite line
  unfold Inquiry.send
  refine (hcore ((keeps_check_of hinvalid).bind fun _ => keeps_requireState_of hinvalid _)).bind ?_
  intro _
  refine hcharge.bind ?_
  intro total
  refine (hcore hstream).bind ?_
  intro _
  exact keeps_modify fun s hs => ⟨hs.1, hsent s.2 total hs.2⟩

theorem keeps_send (bytes : Bytes) :
    Keeps (fun s : SessionCore × Inquiry => Tracked held base s.1) (Inquiry.send bytes) := by
  intro s h
  have hkept := @keeps_send_of (Tracked held base) (fun _ => True)
    (fun core _ => tracked_invalidate core) keeps_writeAt (fun _ _ h => h) bytes
  exact (hkept s ⟨h, trivial⟩).1

theorem tracked_dropInquiry {s : SessionCore × Inquiry} (h : Tracked held base s.1) :
    Tracked held base (Inquiry.drop s) := by
  unfold Inquiry.drop
  split
  · exact h
  · exact tracked_invalidate s.1

theorem keeps_complete (cancelled : Bool) :
    Keeps (fun s : SessionCore × Inquiry => Tracked held base s.1) (Inquiry.complete cancelled) := by
  have hfinish : Keeps (Tracked held base) (Inquiry.finishInquiry cancelled) := by
    intro core h
    refine Tracked.same h rfl ?_
    rintro (hflag | hstate | hstate)
    · exact Or.inl hflag
    · exact Or.inr (Or.inl (by simp [Inquiry.finishInquiry, ClientMachine.finishInquiry, hstate]))
    · exact Or.inr (Or.inr (by simp [Inquiry.finishInquiry, ClientMachine.finishInquiry, hstate]))
  unfold Inquiry.complete
  refine (keeps_onCore keeps_checkInquiry).bind ?_
  intro _
  refine (keeps_onCore (keeps_writeAt _)).bind ?_
  intro _
  refine (keeps_onCore hfinish).bind ?_
  intro _
  exact keeps_modify fun s h => h

theorem Tracked.step {caller caller' : Caller} {step : ClientStep} {o : Outcome ClientError Unit}
    (h : Tracked held base caller.core) (hstep : Caller.Stepped caller step o caller') :
    Tracked held base caller'.core := by
  cases hstep with
  | command core command sensitivity => exact keeps_commandWith command sensitivity core h
  | next core completion => exact keeps_next (core, completion) h
  | finish core completion => exact keeps_finish completion core h
  | dropTransaction core completion => exact tracked_drop h
  | forgetTransaction core completion => exact h
  | send core completion inquiry bytes => exact keeps_send bytes (core, inquiry) h
  | complete core completion inquiry cancelled =>
      exact tracked_dropInquiry (keeps_complete cancelled (core, inquiry) h)
  | dropInquiry core completion inquiry => exact @tracked_dropInquiry _ _ (core, inquiry) h
  | forgetInquiry core completion inquiry => exact h

theorem Tracked.reaches {start caller : Caller} (h : Tracked held base start.core)
    (hreach : Caller.Reaches start caller) : Tracked held base caller.core := by
  induction hreach with
  | refl => exact h
  | tail step o _ hstep ih => exact ih.step (Caller.stepped_of_step hstep)

end Steps

/-! ## §4  Events and commands -/

section Results

variable {held : Bytes} {base : List Io} {core core' : SessionCore}

theorem Since.readEvent (h : Since held base core) (fuel : ℕ) :
    Action.Post (Transaction.readEvent fuel) core
      (Action.Ends (fun _ => True) fun received core' =>
        Shown held base core received core' ∧ received.kind ≠ .empty) := by
  induction fuel generalizing core with
  | zero => exact .failed (by simp [Transaction.readEvent]) trivial
  | succ fuel ih =>
      have hread : Action.Post SessionCore.read core
          (Action.Ends (fun _ => True) (Shown held base core)) := ⟨fun _ => trivial, h.read.2⟩
      rw [Transaction.readEvent]
      apply Action.Post.bind_ends hread
      intro received core₁ s
      by_cases hempty : received.kind = .empty
      · rw [if_neg (by simpa using hempty)]
        apply Action.Post.mono (ih s.since)
        intro o core' hends
        apply hends.mono
        rintro later ⟨s', hkind⟩
        exact ⟨⟨s'.since, s'.sensitivity.trans s.sensitivity, s'.line⟩, hkind⟩
      · rw [if_pos hempty]
        exact .ok ⟨s, hempty⟩

/-- An event is what its line tells, and its line is the last that was read. -/
theorem Since.next (h : Since held base core) (completion : Completion) :
    Action.Post Transaction.next (core, completion)
      (Action.Ends (fun _ => True) fun result s => ∀ event, result = some event →
        ∃ seg parsed, LastLine held base s.1 seg ∧ Terminated lf seg ∧
          parseServerLine (stripTerminator seg) = .ok parsed ∧
          told core.sensitivity parsed = some event) := by
  unfold Transaction.next
  by_cases hlive : core.Poisoned
  · apply Action.Post.bind_failed (Action.zoom_apply hlive.check) (by simp)
    exact .failed (by simp [Outcome.relabel]) trivial
  apply Action.Post.bind_ok (onCore_ok (check_ok hlive))
  -- the three ways in which `next` ends without reading
  by_cases hinquiry : core.machine.state = .inquiry
  · have hrefuse : Transaction.refuseInquiry core = (.err (.state .notReady), core.invalidate) :=
      if_pos hinquiry
    apply Action.Post.bind_failed (Action.zoom_apply hrefuse) (by simp)
    exact .failed (by simp [Outcome.relabel]) trivial
  have hpass : Transaction.refuseInquiry core = (.ok (), core) := if_neg hinquiry
  apply Action.Post.bind_ok (onCore_ok hpass)
  apply Action.Post.get_bind
  by_cases hdone : completion ≠ .pending
  · rw [if_pos hdone]
    exact .ok (by simp)
  rw [if_neg hdone]
  unfold Transaction.readNext
  apply Action.Post.get_bind
  have hread : Action.Post (onCore (Transaction.readEvent (core.channel.supply + 1)))
      (core, completion) (Action.Ends (fun _ => True) fun received s =>
        Shown held base core received s.1 ∧ received.kind ≠ .empty) :=
    ⟨fun _ => trivial, (h.readEvent _).2⟩
  apply Action.Post.bind_ends hread
  rintro received ⟨core₁, completion₁⟩ ⟨shown, hempty⟩
  obtain ⟨seg, parsed, text, hlast, hterm, hparse, htext, hpresents⟩ := shown.line
  apply Action.Post.bind_ok rfl
  rcases makeEvent_told htext hpresents (by rw [← hpresents.kind]; exact hempty) with
    ⟨event, allocations, horizon, hmake, htold, -, -⟩ |
    ⟨-, -, -, e, allocations, horizon, -, hmake⟩
  · apply Action.Post.bind_ok (onCore_ok hmake)
    apply Action.Post.pure
    apply Action.Ends.ok
    rintro _ ⟨⟩
    refine ⟨seg, parsed, hlast, hterm, hparse, ?_⟩
    rw [← shown.sensitivity]
    exact htold
  · -- the guard could not be made, so there is no event
    have hfail : onCore (Transaction.makeEvent received)
        (core₁, Transaction.completionOf received completion₁) = (.err e, _) :=
      Action.zoom_apply hmake
    apply Action.Post.bind_failed hfail (by simp)
    exact .failed (by simp [Outcome.relabel]) trivial

/-- `command_with` gets as far as its drain loop: the command fits in a line, and
the deadline can be computed. -/
def Drains (command : Command) (core : SessionCore) : Prop :=
  (∃ bytes, encoded (encodeCommand command) = .ok bytes) ∧
    (deadline core.commandTimeout core).1 = .ok ()

/-- The state `before` in which `command_with` writes `bytes`, having drained what
was unread and the `reads`. -/
structure Reserved (command : Command) (core : SessionCore) (reads : List Bytes) (bytes : Bytes)
    (before : SessionCore) : Prop where
  encodes : encoded (encodeCommand command) = .ok bytes
  trace : before.channel.trace = core.channel.trace ++ reads.map .read
  empty : before.channel.hasBufferedInput = false
  whole : (splitAfter lf (core.channel.unreadBytes ++ reads.flatten)).2 = []
  idle : ∀ seg ∈ (splitAfter lf (core.channel.unreadBytes ++ reads.flatten)).1, Idle seg
  standing : Standing before.channel
  live : ¬ before.Poisoned

theorem Reserved.not_foreign {command : Command} {reads : List Bytes} {bytes : Bytes}
    {before : SessionCore} (h : Reserved command core reads bytes before) :
    ¬ Foreign (core.channel.unreadBytes ++ reads.flatten) := by
  rintro (⟨seg, hseg, hidle⟩ | hlong)
  · exact hidle (h.idle seg hseg)
  · rw [h.whole] at hlong
    exact absurd hlong (by decide)

theorem Drained.split {reads : List Bytes} (d : Drained core reads (.ok ()) core') :
    (splitAfter lf (core.channel.unreadBytes ++ reads.flatten)).2 = [] ∧
      ∀ seg ∈ (splitAfter lf (core.channel.unreadBytes ++ reads.flatten)).1, Idle seg := by
  obtain ⟨lines, part, hsplit, hlines, -, -, hpart⟩ := d.idle (by simp)
  obtain rfl := hpart rfl
  have hcut := splitAfter_flatten [] fun seg hseg => (hlines seg hseg).1
  rw [hsplit, hcut]
  refine ⟨rfl, fun seg hseg => (hlines seg ?_).2⟩
  simpa [splitAfter] using hseg

theorem deadline_cases (core : SessionCore) (duration : ℕ) :
    (∃ horizon, deadline duration core = (.ok (), { core with horizon := horizon })) ∨
    ∃ e horizon, deadline duration core = (.err e, { core with horizon := horizon }) := by
  unfold deadline
  split
  · exact Or.inr ⟨_, core.horizon, rfl⟩
  · unfold checkedInstant
    split
    · exact Or.inr ⟨_, core.horizon.tail, rfl⟩
    · exact Or.inl ⟨core.horizon.tail, rfl⟩

/-- In `Ready`, `command_with` stops before its write, or writes with nothing left
in the read-ahead buffer. -/
theorem commandWith_cases (htracked : Tracked held base core)
    (hready : core.machine.state = .ready) (command : Command) (sensitivity : Sensitivity) :
    ∃ reads : List Bytes,
      (∃ o core', commandWith command sensitivity core = (o, core') ∧ o.Failed ∧
        core'.channel.trace = core.channel.trace ++ reads.map .read ∧
        (Drains command core → Foreign (core.channel.unreadBytes ++ reads.flatten) →
          core'.Invalidated)) ∨
      ∃ bytes before, Reserved command core reads bytes before ∧
        commandWith command sensitivity core = SessionCore.writeAt bytes before := by
  by_cases hlive : core.Poisoned
  · refine ⟨[], Or.inl ⟨_, core.invalidate, Action.bind_failed hlive.check (by simp), ?_, ?_, ?_⟩⟩
    · simp [Outcome.relabel]
    · exact (List.append_nil _).symm
    · intro _ _
      exact invalidated_invalidate (by rw [hready]; simp)
  obtain ⟨hstanding, -⟩ : Since held base core := htracked.resolve_left hlive
  have hcertain := certain_of_live hlive
  rw [commandWith, Action.bind_ok (check_ok hlive), Action.bind_ok (requireState_ok hready)]
  -- each step before the write may stop the command
  rcases encoded_cases (encodeCommand_writesLine command (Buffer.zero _)) with
    ⟨hbytes, -⟩ | ⟨⟨e, hbytes⟩, -⟩
  · rw [hbytes, Outcome.mapErr_ok, Action.lift_ok_bind, Action.bind_ok (Action.get_apply core)]
    rcases deadline_cases core core.commandTimeout with
      ⟨horizon, hdeadline⟩ | ⟨e, horizon, hdeadline⟩
    · rw [Action.bind_ok hdeadline]
      rcases hrun : drain (core.channel.supply + 1) { core with horizon := horizon } with ⟨o, core₁⟩
      have hdrain : Action.Post (drain (core.channel.supply + 1)) { core with horizon := horizon }
          fun o core' => ∃ reads, Drained { core with horizon := horizon } reads o core' :=
        drain_cases hstanding hcertain hready (Nat.lt_succ_self _)
      obtain ⟨reads, d⟩ := hdrain.elim hrun
      refine ⟨reads, ?_⟩
      rcases o.ok_or_failed with ⟨u, rfl⟩ | ho
      · right
        -- the drain is over: the read-ahead buffer is empty when the line goes out
        obtain ⟨hempty, hmachine, hflag, hstanding₁⟩ := d.done rfl
        obtain ⟨hwhole, hidle⟩ := d.split
        have hready₁ : core₁.machine.state = .ready := by
          rw [hmachine]
          exact hready
        refine ⟨_, { core₁ with
            sensitivity := sensitivity
            machine := { core₁.machine with state := .command }
            log := core₁.log ++ [.command command] },
          ⟨hbytes, d.trace, hempty, hwhole, hidle, hstanding₁, ?_⟩, ?_⟩
        · exact live_of_certain hflag (by simp)
        · rw [Action.bind_ok hrun, Action.bind_ok (Action.modify_apply _ _),
            Action.bind_ok (beginCommand_ready { core₁ with sensitivity := sensitivity } hready₁)]
          rfl
      · left
        refine ⟨_, core₁, Action.bind_failed hrun ho, ho.relabel, d.trace, ?_⟩
        intro _ hforeign
        by_cases herr : ∃ e, o = .err e
        · obtain ⟨e, rfl⟩ := herr
          exact d.refused e rfl
        · exact absurd hforeign (d.not_foreign fun e he => herr ⟨e, he⟩)
    · refine ⟨[], Or.inl ⟨_, _, Action.bind_failed hdeadline (by simp), ?_, ?_, ?_⟩⟩
      · simp [Outcome.relabel]
      · simp
      · rintro ⟨-, hok⟩
        rw [hdeadline] at hok
        exact absurd hok (by simp)
  · rw [hbytes, Outcome.mapErr_err, Action.lift_err_bind]
    refine ⟨[], Or.inl ⟨_, core, rfl, by simp, by simp, ?_⟩⟩
    rintro ⟨⟨bytes, hok⟩, -⟩
    rw [hbytes] at hok
    exact absurd hok (by simp)

/-! ## §5  No response of an earlier operation -/

/-- **A response that came in before a command is not taken for an answer to it.**
In every reachable state in which the machine is ready, a command is written only
when all lines that were read ahead, or had to be completed for that, are comments
or empty, and then the read-ahead buffer is empty. If there is any other line, the
stream gets no byte of the command, and the session is invalidated. And each event
that is returned after the command was sent is told by a line that is cut out of
what the stream delivered after that. -/
theorem no_early_attribution {start caller after : Caller} {command : Command}
    {sensitivity : Sensitivity} {o : Outcome ClientError Unit}
    (hstart : Standing start.core.channel) (hreach : Caller.Reaches start caller)
    (hready : caller.core.machine.state = .ready)
    (hstep : caller.step (.command command sensitivity) = some (o, after)) :
    ∃ reads : List Bytes,
      (after.core.channel.trace = caller.core.channel.trace ++ reads.map .read ∨
        ∃ bytes before n, Reserved command caller.core reads bytes before ∧
          SessionCore.writeAt bytes before = (o, after.core) ∧ after.core.channel.trace =
            caller.core.channel.trace ++ reads.map .read ++ [.wrote (bytes.take n)]) ∧
      (Drains command caller.core → Foreign (caller.core.channel.unreadBytes ++ reads.flatten) →
        after.core.channel.trace = caller.core.channel.trace ++ reads.map .read ∧
          after.core.Invalidated) ∧
      (o = .ok () →
        (∃ bytes, encoded (encodeCommand command) = .ok bytes ∧ after.core.channel.trace =
          caller.core.channel.trace ++ reads.map .read ++ [.wrote bytes]) ∧
        ∀ later completion event s, Caller.Reaches after later →
          Transaction.next (later.core, completion) = (.ok (some event), s) →
          ∃ since earlier seg parsed, s.1.channel.trace = after.core.channel.trace ++ since ∧
            arrived since = earlier ++ seg ++ s.1.channel.unreadBytes ∧ Terminated lf seg ∧
            parseServerLine (stripTerminator seg) = .ok parsed ∧
            told later.core.sensitivity parsed = some event) := by
  have hstepped := Caller.stepped_of_step hstep
  have htracked := Tracked.reaches (Or.inr (since_start hstart)) hreach
  cases hstepped with
  | command core command sensitivity =>
  obtain ⟨reads, hstopped | ⟨bytes, before, r, hwrite⟩⟩ :=
    commandWith_cases htracked hready command sensitivity
  · obtain ⟨o, core', hrun, ho, htrace, hforeign⟩ := hstopped
    refine ⟨reads, ?_⟩
    rw [hrun]
    refine ⟨Or.inl htrace, fun hdrains hinput => ⟨htrace, hforeign hdrains hinput⟩, ?_⟩
    intro hok
    exact absurd hok (ho ())
  · have w := writeAt_cases r.standing r.live bytes
    refine ⟨reads, ?_⟩
    rw [hwrite]
    refine ⟨?_, fun _ hforeign => absurd hforeign r.not_foreign, ?_⟩
    · rcases w.trace with hsame | ⟨n, hsent⟩
      · exact Or.inl (hsame.trans r.trace)
      · refine Or.inr ⟨bytes, before, n, r, rfl, ?_⟩
        rw [← r.trace]
        exact hsent
    · intro hok
      obtain ⟨ch, hcore, hstanding, -, hsent, hunread⟩ := w.sent hok
      have hnil : ch.unreadBytes = [] := by
        rw [hunread]
        exact (hasBufferedInput_eq_false r.standing).mp r.empty
      rw [hcore]
      refine ⟨⟨bytes, r.encodes, by rw [← r.trace]; exact hsent⟩, ?_⟩
      intro later completion event s hlater hnext
      -- nothing is held when the line has gone out, so all that counts came in since
      have hfresh : Since [] ch.trace { before with channel := ch } :=
        ⟨hstanding, [], [], by simp, by simp [arrived, hnil]⟩
      have hlive : ¬ later.core.Poisoned := by
        intro hpoisoned
        have hrefused : Transaction.next (later.core, completion) = (.err (.state .unusable), _) :=
          Caller.refused_onCore hpoisoned.check completion _
        rw [hrefused] at hnext
        exact absurd (Prod.mk.inj hnext).1 (by simp)
      have hsince := (Tracked.reaches (Or.inr hfresh) hlater).resolve_left hlive
      obtain ⟨-, hok⟩ := (hsince.next completion).elim hnext
      obtain ⟨seg, parsed, ⟨since, earlier, htrace, hsplit⟩, hterm, hparse, htold⟩ :=
        hok (some event) rfl event rfl
      exact ⟨since, earlier, seg, parsed, htrace, hsplit, hterm, hparse, htold⟩

/-- A session whose peer has sent a second `OK`. -/
def leftover : Caller where
  core :=
    { channel := Channel.standing (some ⟨[], []⟩) .new (asBytes "OK\n") [] []
      machine := ⟨.ready, .greeting⟩
      ioUncertain := false
      sensitivity := .public_
      commandTimeout := 30
      inquiryTimeout := 30
      maxInquiryBytes := 1024
      horizon := []
      allocations := []
      log := [] }
  guard := .free

theorem no_early_attribution_leftover : ∃ (o : Outcome ClientError Unit) (after : Caller)
    (reads : List Bytes), leftover.step (.command Caller.nop .public_) = some (o, after) ∧
      after.core.channel.trace = reads.map .read ∧ after.core.Invalidated := by
  have hstanding : Standing leftover.core.channel := standing_intro (by decide)
  obtain ⟨reads, -, hforeign, -⟩ := @no_early_attribution leftover leftover _ Caller.nop .public_ _
    hstanding (.refl leftover) rfl rfl
  refine ⟨_, _, reads, rfl, hforeign ⟨⟨asBytes "NOP\n", by decide +kernel⟩, rfl⟩ (Or.inl ?_)⟩
  -- the first line is the stray `OK`, whatever follows it
  have hterm : Terminated lf (asBytes "OK\n") := ⟨asBytes "OK", by decide, rfl⟩
  have hunread : leftover.core.channel.unreadBytes = asBytes "OK\n" :=
    unreadBytes_standing (by decide)
  rw [hunread, splitAfter_of_some (hterm.firstSegment _)]
  refine ⟨asBytes "OK\n", List.mem_cons_self, ?_⟩
  rintro ⟨-, parsed, hparse, hkind⟩
  have hok : parseServerLine (stripTerminator (asBytes "OK\n")) = .ok (.ok []) := by decide +kernel
  obtain rfl := Outcome.ok.inj (hok.symm.trans hparse)
  exact absurd hkind (by simp [ServerLine.kind])

end Results

end Assuan
