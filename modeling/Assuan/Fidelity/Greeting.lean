import Assuan.Client.Handshake
import Assuan.Fidelity.Collection

/-!
# What is a greeting

Over a channel without faults the automatic greeting is a small grammar: lines of
information, then `OK`, with at most one inquiry on the way, which is cancelled.
Everything else ends in an error, and a rejection is reported with its code.
-/

namespace Assuan

open Channel LineBuffer SessionCore

/-! ## §1  The grammar -/

/-- The line is within the limit and well formed. -/
def Says (seg : Bytes) (parsed : ServerLine) : Prop :=
  seg.length ≤ maxLineBytes ∧ parseServerLine (stripTerminator seg) = .ok parsed

/-- A status, a comment or an empty line. -/
def Informs (seg : Bytes) : Prop :=
  ∃ parsed, Says seg parsed ∧
    (parsed.kind = .status ∨ parsed.kind = .comment ∨ parsed.kind = .empty)

def Inquires (seg : Bytes) : Prop := ∃ keyword args, Says seg (.inquire keyword args)

def Welcomes (seg : Bytes) : Prop := ∃ text, Says seg (.ok text)

def Rejects (code : UInt32) (seg : Bytes) : Prop := ∃ text, Says seg (.err code text)

/-- What may come before the final line: information, with one inquiry in it if the
greeting is `cancelled`. -/
def Preamble (cancelled : Bool) (word : List Bytes) : Prop :=
  if cancelled then
    ∃ before asked after, word = before ++ asked :: after ∧ (∀ seg ∈ before, Informs seg) ∧
      Inquires asked ∧ ∀ seg ∈ after, Informs seg
  else ∀ seg ∈ word, Informs seg

/-- The machine during the greeting, before and after the inquiry. -/
def waiting : Bool → ClientMachine
  | false => .new
  | true => ⟨.awaitFinal, .greeting⟩

theorem waiting_live (cancelled : Bool) : (waiting cancelled).state ≠ .invalid ∧
    (waiting cancelled).state ≠ .closed ∧ (waiting cancelled).state ≠ .inquiry := by
  cases cancelled <;> decide

theorem waiting_informs (cancelled : Bool) {kind : LineKind}
    (h : kind = .status ∨ kind = .comment ∨ kind = .empty) :
    (waiting cancelled).receive kind = (.ok (), waiting cancelled) := by
  rcases h with rfl | rfl | rfl <;> cases cancelled <;> rfl

theorem waiting_ok (cancelled : Bool) :
    (waiting cancelled).receive .ok = (.ok (), ⟨.ready, .greeting⟩) := by
  cases cancelled <;> rfl

theorem waiting_inquire : (waiting false).receive .inquire = (.ok (), ⟨.inquiry, .greeting⟩) := rfl

/-- A line that is not wanted: only an `ERR` is a rejection. -/
theorem waiting_error {cancelled : Bool} {kind : LineKind} {e : StateError}
    {machine : ClientMachine} (h : (waiting cancelled).receive kind = (.error e, machine)) :
    e = .greetingRejected ↔ kind = .err := by
  cases cancelled <;> cases kind <;> simp [waiting, ClientMachine.receive, ClientMachine.new] at h
  all_goals
    obtain ⟨rfl, -⟩ := h
    simp

/-- The lines that the machine accepts. -/
theorem waiting_accepts {cancelled : Bool} {kind : LineKind} {machine : ClientMachine}
    (h : (waiting cancelled).receive kind = (.ok (), machine)) :
    (kind = .status ∨ kind = .comment ∨ kind = .empty) ∨ kind = .ok ∨
      (kind = .inquire ∧ cancelled = false) := by
  cases cancelled <;> cases kind <;> simp [waiting, ClientMachine.receive, ClientMachine.new] at h ⊢

/-! ## §2  Lines that are refused -/

section Refused

variable {core : SessionCore} {input seg rest : Bytes} {cancelled : Bool}

/-- Nothing has gone wrong, and the machine waits for the greeting. -/
structure Greeting (core : SessionCore) (cancelled : Bool) (input : Bytes) : Prop where
  expecting : Expecting core input
  machine : core.machine = waiting cancelled

theorem next_of_read_err {core' : SessionCore} {e : ClientError} (hlive : ¬ core.Poisoned)
    (hstate : core.machine.state ≠ .inquiry) (hread : SessionCore.read core = (.err e, core')) :
    ∃ s, Transaction.next (core, .pending) = (.err e, s) := by
  have hloop : onCore (Transaction.readEvent (core.channel.supply + 1)) (core, Completion.pending) =
      (.err e, (core', Completion.pending)) := by
    apply Action.zoom_apply
    rw [Transaction.readEvent, Action.bind_failed hread (by simp)]
    rfl
  refine ⟨(core', .pending), ?_⟩
  rw [next_eq_readNext hlive hstate, Transaction.readNext, Action.bind_ok (Action.get_apply _),
    Action.bind_failed hloop (by simp)]
  rfl

/-- Where no line can be read, the greeting fails in the transport. -/
theorem Greeting.next_none (h : Greeting core cancelled input)
    (hlong : ∀ seg rest, Terminated lf seg → input = seg ++ rest → maxLineBytes < seg.length) :
    ∃ e s, Transaction.next (core, .pending) = (.err (.transport e), s) := by
  obtain ⟨e, ch, hline⟩ := h.expecting.ideal.readLine_none hlong
  have hread : onChannel Channel.readLine { core with ioUncertain := true } =
      (.err (.transport e), { core with channel := ch, ioUncertain := true }) :=
    onChannel_apply { core with ioUncertain := true } hline
  have hbody : readBody { core with ioUncertain := true } = (.err (.transport e), _) :=
    Action.bind_failed hread (by simp)
  obtain ⟨s, hnext⟩ :=
    next_of_read_err h.expecting.live h.expecting.state (read_err h.expecting.live hbody)
  exact ⟨e, s, hnext⟩

theorem not_rejects {parsed : ServerLine} (hparse : parseServerLine (stripTerminator seg) = .ok parsed)
    (hkind : parsed.kind ≠ .err) (code : UInt32) : ¬ Rejects code seg := by
  rintro ⟨text, -, herr⟩
  obtain rfl := Outcome.ok.inj (hparse.symm.trans herr)
  exact hkind rfl

/-- The error for a line that the machine does not want. -/
theorem unwanted_rejects {parsed : ServerLine} {e : StateError} {machine : ClientMachine}
    (hfits : seg.length ≤ maxLineBytes)
    (hparse : parseServerLine (stripTerminator seg) = .ok parsed)
    (hreceive : (waiting cancelled).receive parsed.kind = (.error e, machine)) (code : UInt32) :
    (if e = .greetingRejected then ClientError.greetingRejected (parsed.code.getD 0) else .state e) =
      .greetingRejected code ↔ Rejects code seg := by
  have hwhy := waiting_error hreceive
  by_cases hkind : parsed.kind = .err
  · obtain ⟨c, text, rfl⟩ : ∃ c text, parsed = .err c text := by
      cases parsed with
      | err c text => exact ⟨c, text, rfl⟩
      | _ => exact absurd hkind (by simp [ServerLine.kind])
    rw [if_pos (hwhy.mpr rfl)]
    constructor
    · intro hcode
      obtain rfl : c = code := ClientError.greetingRejected.inj hcode
      exact ⟨text, hfits, hparse⟩
    · rintro ⟨text', -, herr⟩
      obtain ⟨rfl, -⟩ := ServerLine.err.inj (Outcome.ok.inj (hparse.symm.trans herr))
      rfl
  · rw [if_neg (fun he => hkind (hwhy.mp he))]
    exact ⟨by simp, fun hrejects => absurd hrejects (not_rejects hparse hkind code)⟩

/-- The machine accepts nothing but the lines that have a place. -/
theorem excluded {parsed : ServerLine} {machine : ClientMachine} (hfits : seg.length ≤ maxLineBytes)
    (hparse : parseServerLine (stripTerminator seg) = .ok parsed) (hinforms : ¬ Informs seg)
    (hwelcomes : ¬ Welcomes seg) (hinquires : ¬ (Inquires seg ∧ cancelled = false)) :
    (waiting cancelled).receive parsed.kind ≠ (.ok (), machine) := by
  intro hreceive
  rcases waiting_accepts hreceive with hkind | hkind | ⟨hkind, hcancelled⟩
  · exact hinforms ⟨parsed, ⟨hfits, hparse⟩, hkind⟩
  · cases parsed with
    | ok text => exact hwelcomes ⟨text, hfits, hparse⟩
    | _ => exact absurd hkind (by simp [ServerLine.kind])
  · cases parsed with
    | inquire keyword args => exact hinquires ⟨⟨keyword, args, hfits, hparse⟩, hcancelled⟩
    | _ => exact absurd hkind (by simp [ServerLine.kind])

/-- How `classify` ends on a line that has no place in the greeting. -/
theorem classify_refused {o : Outcome ClientError Received} {core' : SessionCore}
    (hend : ClassifyEnd (stripTerminator seg) core o core') (hmachine : core.machine = waiting cancelled)
    (hfits : seg.length ≤ maxLineBytes) (hinforms : ¬ Informs seg) (hwelcomes : ¬ Welcomes seg)
    (hinquires : ¬ (Inquires seg ∧ cancelled = false)) :
    ∃ e, o = .err e ∧ ∀ code, e = .greetingRejected code ↔ Rejects code seg := by
  cases hend with
  | malformed e hparse =>
      refine ⟨_, rfl, fun code => ⟨by simp, ?_⟩⟩
      rintro ⟨text, -, herr⟩
      exact absurd (hparse.symm.trans herr) (by simp)
  | undecodable parsed hparse hcontent =>
      refine ⟨_, rfl, fun code => ⟨by simp, ?_⟩⟩
      intro hrejects
      refine absurd hrejects (not_rejects hparse ?_ code)
      intro hkind
      rw [content_of_kind (by rw [hkind]; decide)] at hcontent
      exact absurd hcontent (by simp)
  | unwanted parsed e ch held machine hparse _ hreceive _ =>
      rw [hmachine] at hreceive
      exact ⟨_, rfl, unwanted_rejects hfits hparse hreceive⟩
  | accepted parsed received ch held machine hparse hreceive _ _ _ =>
      rw [hmachine] at hreceive
      exact absurd hreceive (excluded hfits hparse hinforms hwelcomes hinquires)

/-- Any line that has no place in the greeting is an error, and it is reported as a
rejection exactly if it is an `ERR`. -/
theorem Greeting.next_refused (h : Greeting core cancelled (seg ++ rest))
    (hterm : Terminated lf seg) (hinforms : ¬ Informs seg) (hwelcomes : ¬ Welcomes seg)
    (hinquires : ¬ (Inquires seg ∧ cancelled = false)) :
    ∃ e s, Transaction.next (core, .pending) = (.err e, s) ∧
      ∀ code, e = .greetingRejected code ↔ Rejects code seg := by
  by_cases hfits : seg.length ≤ maxLineBytes
  · obtain ⟨ch, hline, -, -, -⟩ := h.expecting.ideal.readSegment hterm hfits
    have hread : onChannel Channel.readLine { core with ioUncertain := true } =
        (.ok (stripTerminator seg), { core with channel := ch, ioUncertain := true }) :=
      onChannel_apply { core with ioUncertain := true } hline
    rcases hclass : classify (stripTerminator seg) { core with channel := ch, ioUncertain := true }
      with ⟨o, core'⟩
    obtain ⟨e, rfl, hcode⟩ := classify_refused ((classify_ends _ _).elim hclass) h.machine hfits
      hinforms hwelcomes hinquires
    have hbody : readBody { core with ioUncertain := true } = (.err e, core') :=
      (Action.bind_ok hread).trans hclass
    obtain ⟨s, hnext⟩ :=
      next_of_read_err h.expecting.live h.expecting.state (read_err h.expecting.live hbody)
    exact ⟨e, s, hnext, hcode⟩
  · obtain ⟨e, s, hnext⟩ := h.next_none (by
      intro seg' rest' hterm' hsplit
      obtain ⟨rfl, -⟩ := hterm.unique hterm' hsplit
      exact Nat.lt_of_not_le hfits)
    refine ⟨_, s, hnext, fun code => ⟨by simp, ?_⟩⟩
    rintro ⟨text, hshort, -⟩
    exact absurd hshort hfits

end Refused

/-! ## §3  The rounds of `drive` -/

section Rounds

variable {core core' : SessionCore} {seg rest : Bytes} {cancelled : Bool} {fuel : ℕ}

/-- A handshake that has not ended yet. -/
def begun (core : SessionCore) : Handshake := ⟨some core, .pending, none⟩

/-- `drive(None)`. -/
def driven (fuel : ℕ) (h : Handshake) : Outcome ClientError SessionCore × Handshake :=
  @Handshake.drive Unit none fuel () h

theorem handshake_next {completion completion' : Completion}
    {o : Outcome ClientError (Option Event)}
    (h : Transaction.next (core, completion) = (o, (core', completion'))) :
    Handshake.next ⟨some core, completion, none⟩ = (o, ⟨some core', completion', none⟩) := by
  have hpass : Action.onError Handshake.invalidate Handshake.takeError
      ⟨some core, completion, none⟩ = (.ok (), ⟨some core, completion, none⟩) := rfl
  rw [Handshake.next, Action.bind_ok hpass, Handshake.onClient]
  simp only [h]

theorem driven_err {e : ClientError} {s : SessionCore × Completion}
    (h : Transaction.next (core, .pending) = (.err e, s)) :
    ∃ h', driven (fuel + 1) (begun core) = (.err e, h') := by
  obtain ⟨core', completion⟩ := s
  refine ⟨⟨some core', completion, none⟩, ?_⟩
  rw [driven, Handshake.drive]
  exact Action.bind_failed (handshake_next h) (by simp)

/-- The loop depends on the session through `next` alone. -/
theorem driven_congr (h : Transaction.next (core, .pending) = Transaction.next (core', .pending)) :
    driven (fuel + 1) (begun core) = driven (fuel + 1) (begun core') := by
  have hnext : Handshake.next (begun core) = Handshake.next (begun core') := by
    rcases hrun : Transaction.next (core, .pending) with ⟨o, core₁, completion₁⟩
    exact (handshake_next hrun).trans (handshake_next (h.symm.trans hrun)).symm
  simp only [driven, Handshake.drive, bind, Action.bind, hnext]

/-- An event that is not an inquiry only counts a round. -/
theorem driven_event {event : Event}
    (hnext : Transaction.next (core, .pending) = (.ok (some event), (core', .pending)))
    (hevent : ∀ inquiry, event ≠ .inquire inquiry) :
    driven (fuel + 1) (begun core) = driven fuel (begun core') := by
  rw [driven, Handshake.drive, begun, Action.bind_ok (handshake_next hnext)]
  cases event with
  | inquire inquiry => exact absurd rfl (hevent inquiry)
  | _ => rfl

theorem driven_inquire {inquiry : Inquiry} {core'' : SessionCore}
    (hnext : Transaction.next (core, .pending) = (.ok (some (.inquire inquiry)), (core', .pending)))
    (hcancel : Inquiry.finish true inquiry core' = (.ok (), core'')) :
    driven (fuel + 1) (begun core) = driven fuel (begun core'') := by
  have hanswer : Handshake.answer none () inquiry core' = (.ok (), core'') := by
    rw [Handshake.answer, Action.bind_ok hcancel]
    rfl
  have hanswer' : Handshake.onClient (onCore (Handshake.answer none () inquiry)) (begun core') =
      (.ok (), begun core'') := by
    simp only [Handshake.onClient, begun, onCore, Action.zoom, hanswer]
  rw [driven, Handshake.drive, begun, Action.bind_ok (handshake_next hnext)]
  exact Action.bind_ok hanswer'

/-- After the final line one more round ends the loop and hands over the client. -/
theorem driven_finished {text : PayloadRef}
    (hnext : Transaction.next (core, .pending) =
      (.ok (some (.finished none text)), (core', .success)))
    (hlive : ¬ core'.Poisoned) (hstate : core'.machine.state ≠ .inquiry) :
    ∃ h', driven (fuel + 2) (begun core) = (.ok core', h') := by
  have hrefuse : Transaction.refuseInquiry core' = (.ok (), core') := if_neg hstate
  have hnone : Transaction.next (core', .success) = (.ok none, (core', .success)) := by
    rw [Transaction.next, Action.bind_ok (onCore_ok (check_ok hlive)),
      Action.bind_ok (onCore_ok hrefuse), Action.bind_ok (Action.get_apply _), if_pos (by simp)]
    rfl
  have hcheck : Handshake.onClient (onCore SessionCore.check) ⟨some core', .success, none⟩ =
      (.ok (), ⟨some core', .success, none⟩) := by
    simp only [Handshake.onClient, onCore, Action.zoom, check_ok hlive]
  have hpass : Handshake.takeError ⟨some core', .success, none⟩ =
      (.ok (), ⟨some core', .success, none⟩) := rfl
  have hfinish : Handshake.finish ⟨some core', .success, none⟩ =
      (.ok core', ⟨none, .success, none⟩) := by
    rw [Handshake.finish, Action.bind_ok hpass, Action.bind_ok hcheck,
      Action.bind_ok (Action.get_apply _)]
    rfl
  refine ⟨⟨none, .success, none⟩, ?_⟩
  rw [driven, Handshake.drive, begun, Action.bind_ok (handshake_next hnext)]
  show Handshake.drive none (fuel + 1) () ⟨some core', .success, none⟩ = _
  rw [Handshake.drive, Action.bind_ok (handshake_next hnone)]
  exact hfinish

theorem Says.wired {parsed : ServerLine} (h : Says seg parsed) (hterm : Terminated lf seg)
    (hdata : parsed.kind ≠ .data) : Wired seg parsed := by
  refine ⟨hterm, h.1, h.2, ?_⟩
  rw [content_of_kind hdata]
  rfl

theorem Steady.greeting {machine : ClientMachine} (h : Steady core machine rest core')
    (hmachine : machine = waiting cancelled) : Greeting core' cancelled rest := by
  subst hmachine
  obtain ⟨hinvalid, hclosed, hinquiry⟩ := waiting_live cancelled
  refine ⟨⟨h.ideal, h.live ⟨hinvalid, hclosed⟩, ?_, h.allocations, h.horizon⟩, h.machine⟩
  rw [h.machine]
  exact hinquiry

/-- A line of information leaves the greeting where it was. -/
theorem Greeting.informs (h : Greeting core cancelled (seg ++ rest)) (hterm : Terminated lf seg)
    (hinforms : Informs seg) (fuel : ℕ) :
    ∃ core' fuel', fuel ≤ fuel' ∧ driven (fuel + 1) (begun core) = driven fuel' (begun core') ∧
      Greeting core' cancelled rest ∧ Advances core.channel seg core'.channel := by
  obtain ⟨parsed, hmeans, hkind⟩ := hinforms
  have hreceive : core.machine.receive parsed.kind = (.ok (), waiting cancelled) := by
    rw [h.machine]
    exact waiting_informs cancelled hkind
  have hw : Wired seg parsed := hmeans.wired hterm (by rcases hkind with h | h | h <;> simp [h])
  by_cases hempty : parsed = .empty
  · -- an empty line is skipped inside `next_event`
    subst hempty
    obtain ⟨core', hsame, hsteady, hadvances⟩ := h.expecting.skip hw hreceive
    exact ⟨core', fuel + 1, Nat.le_succ fuel, driven_congr hsame, hsteady.greeting rfl, hadvances⟩
  · obtain ⟨event, core', hnext, htold, hsteady, hadvances⟩ := h.expecting.next hw hreceive hempty
    have hpending : settled parsed = .pending := by
      rw [settled, if_neg]
      rcases hkind with h | h | h <;> simp [h]
    rw [hpending] at hnext
    refine ⟨core', fuel, Nat.le_refl fuel, driven_event hnext ?_, hsteady.greeting rfl, hadvances⟩
    rintro inquiry rfl
    cases parsed with
    | status keyword args => exact absurd htold (by simp [told])
    | comment text => exact absurd htold (by simp [told])
    | _ => exact absurd hkind (by simp [ServerLine.kind] at hempty ⊢)

theorem advances_refl (ch : Channel) : Advances ch [] ch := ⟨[], by simp, by simp⟩

/-- So does a word of such lines. -/
theorem Greeting.word {word : List Bytes} (hword : ∀ seg ∈ word, Terminated lf seg ∧ Informs seg)
    (h : Greeting core cancelled (word.flatten ++ rest)) (hfuel : word.length ≤ fuel) :
    ∃ core' fuel', fuel ≤ fuel' + word.length ∧
      driven fuel (begun core) = driven fuel' (begun core') ∧ Greeting core' cancelled rest ∧
      Advances core.channel word.flatten core'.channel := by
  induction word generalizing core fuel with
  | nil => exact ⟨core, fuel, Nat.le_refl _, rfl, h, advances_refl _⟩
  | cons seg word ih =>
      obtain ⟨hterm, hinforms⟩ := hword seg List.mem_cons_self
      rw [List.flatten_cons, List.append_assoc] at h
      obtain ⟨fuel, rfl⟩ : ∃ n, fuel = n + 1 :=
        ⟨fuel - 1, by rw [List.length_cons] at hfuel; omega⟩
      rw [List.length_cons] at hfuel
      obtain ⟨core₁, fuel₁, hfuel₁, hrun₁, hgreeting₁, hadvances₁⟩ := h.informs hterm hinforms fuel
      obtain ⟨core', fuel', hfuel', hrun', hgreeting', hadvances'⟩ :=
        @ih core₁ fuel₁ (fun s hs => hword s (List.mem_cons_of_mem _ hs)) hgreeting₁ (by omega)
      refine ⟨core', fuel', ?_, hrun₁.trans hrun', hgreeting', ?_⟩
      · rw [List.length_cons]
        omega
      · rw [List.flatten_cons]
        exact hadvances₁.trans hadvances'

/-- The inquiry is cancelled, after its line was taken. -/
theorem Greeting.inquires (h : Greeting core false (seg ++ rest)) (hterm : Terminated lf seg)
    (hinquires : Inquires seg) (fuel : ℕ) :
    ∃ ch core', driven (fuel + 1) (begun core) = driven fuel (begun core') ∧
      Greeting core' true rest ∧ Advances core.channel seg ch ∧
      core'.channel.trace = ch.trace ++ [.wrote canLine] ∧
      core'.channel.unreadBytes = ch.unreadBytes := by
  obtain ⟨keyword, args, hmeans⟩ := hinquires
  have hreceive : core.machine.receive .inquire = (.ok (), ⟨.inquiry, .greeting⟩) := by
    rw [h.machine]
    exact waiting_inquire
  obtain ⟨event, core', hnext, htold, hsteady, hadvances⟩ :=
    h.expecting.next (hmeans.wired hterm (by simp [ServerLine.kind])) hreceive (by simp)
  obtain rfl := Option.some.inj htold
  obtain ⟨core'', hcancel, hnow, -, htrace, hunread⟩ := hsteady.cancel rfl (asked keyword args)
  exact ⟨core'.channel, core'', driven_inquire hnext hcancel, hnow.greeting rfl, hadvances, htrace,
    hunread⟩

/-- `OK` ends the greeting, and no byte after it is taken. -/
theorem Greeting.welcomes (h : Greeting core cancelled (seg ++ rest)) (hterm : Terminated lf seg)
    (hwelcomes : Welcomes seg) (fuel : ℕ) :
    ∃ core' h', driven (fuel + 2) (begun core) = (.ok core', h') ∧ core'.isUsable = true ∧
      Ideal core'.channel rest ∧ Advances core.channel seg core'.channel := by
  obtain ⟨text, hmeans⟩ := hwelcomes
  have hreceive : core.machine.receive .ok = (.ok (), ⟨.ready, .greeting⟩) := by
    rw [h.machine]
    exact waiting_ok cancelled
  obtain ⟨event, core', hnext, htold, hsteady, hadvances⟩ :=
    h.expecting.next (hmeans.wired hterm (by simp [ServerLine.kind])) hreceive (by simp)
  obtain rfl := Option.some.inj htold
  have hlive : ¬ core'.Poisoned := hsteady.live (by decide)
  have hstate : core'.machine.state = .ready := by rw [hsteady.machine]
  obtain ⟨h', hrun⟩ := @driven_finished core core' fuel _ hnext hlive (by rw [hstate]; decide)
  refine ⟨core', h', hrun, ?_, hsteady.ideal, hadvances⟩
  rw [isUsable, hsteady.certain, hstate]
  rfl

end Rounds

/-! ## §4  The whole greeting -/

section Whole

variable {core : SessionCore} {cancelled : Bool} {fuel : ℕ} {segs : List Bytes} {tail : Bytes}

/-- Information, up to the first line that is something else. -/
theorem informs_span (segs : List Bytes) : ∃ word rest, segs = word ++ rest ∧
    (∀ seg ∈ word, Informs seg) ∧ ∀ seg later, rest = seg :: later → ¬ Informs seg := by
  induction segs with
  | nil => exact ⟨[], [], rfl, by simp, by simp⟩
  | cons seg segs ih =>
      by_cases h : Informs seg
      · obtain ⟨word, rest, rfl, hword, hrest⟩ := ih
        refine ⟨seg :: word, rest, rfl, ?_, hrest⟩
        intro s hs
        rcases List.mem_cons.mp hs with rfl | hs
        · exact h
        · exact hword s hs
      · refine ⟨[], seg :: segs, rfl, by simp, ?_⟩
        rintro s later hs
        obtain ⟨rfl, -⟩ := List.cons.inj hs
        exact h

/-- A word, and the line after it. -/
theorem Greeting.upto {word rest : List Bytes} {seg : Bytes}
    (hsegs : ∀ s ∈ word ++ seg :: rest, Terminated lf s) (hword : ∀ s ∈ word, Informs s)
    (h : Greeting core cancelled ((word ++ seg :: rest).flatten ++ tail))
    (hfuel : (word ++ seg :: rest).length + 1 < fuel) :
    ∃ core' fuel', rest.length < fuel' ∧
      driven fuel (begun core) = driven (fuel' + 2) (begun core') ∧
      Greeting core' cancelled (seg ++ (rest.flatten ++ tail)) ∧
      Advances core.channel word.flatten core'.channel ∧ Terminated lf seg := by
  have hinput : (word ++ seg :: rest).flatten ++ tail =
      word.flatten ++ (seg ++ (rest.flatten ++ tail)) := by
    simp only [List.flatten_append, List.flatten_cons, List.append_assoc]
  rw [hinput] at h
  rw [List.length_append, List.length_cons] at hfuel
  obtain ⟨core', fuel', hfuel', hrun, hgreeting, hadvances⟩ := h.word
    (fun s hs => ⟨hsegs s (List.mem_append_left _ hs), hword s hs⟩)
    (by omega : word.length ≤ fuel)
  refine ⟨core', fuel' - 2, by omega, ?_, hgreeting, hadvances,
    hsegs seg (List.mem_append_right _ List.mem_cons_self)⟩
  rw [hrun]
  congr 1
  omega

/-- How the rest of a greeting ends. -/
inductive Ended : Bool → List Bytes → Outcome ClientError SessionCore → Prop where
  | welcomed {cancelled : Bool} {core : SessionCore} {word rest : List Bytes} {final : Bytes} :
      (∀ seg ∈ word, Informs seg) → Welcomes final →
      Ended cancelled (word ++ final :: rest) (.ok core)
  | rejected {cancelled : Bool} {code : UInt32} {word rest : List Bytes} {final : Bytes} :
      (∀ seg ∈ word, Informs seg) → Rejects code final →
      Ended cancelled (word ++ final :: rest) (.err (.greetingRejected code))
  | failed {cancelled : Bool} {segs : List Bytes} {e : ClientError} :
      (∀ code, e ≠ .greetingRejected code) → Ended cancelled segs (.err e)
  | asked {o : Outcome ClientError SessionCore} {word rest : List Bytes} {final : Bytes} :
      (∀ seg ∈ word, Informs seg) → Inquires final → Ended true rest o →
      Ended false (word ++ final :: rest) o

/-- Whatever the server sends, the greeting ends, if it does so after an inquiry. -/
theorem Greeting.ended_of (hagain : cancelled = false → ∀ {core' rest fuel'},
      (∀ seg ∈ rest, Terminated lf seg) → Greeting core' true (rest.flatten ++ tail) →
      rest.length + 1 < fuel' → Ended true rest (driven fuel' (begun core')).1)
    (hsegs : ∀ seg ∈ segs, Terminated lf seg) (htail : lf ∉ tail)
    (h : Greeting core cancelled (segs.flatten ++ tail)) (hfuel : segs.length + 1 < fuel) :
    Ended cancelled segs (driven fuel (begun core)).1 := by
  obtain ⟨word, rest, rfl, hword, hstop⟩ := informs_span segs
  cases rest with
  | nil =>
      -- the end of the stream
      rw [List.append_nil] at h hsegs hfuel
      obtain ⟨core', fuel', hfuel', hrun, hgreeting, -⟩ := h.word
        (fun s hs => ⟨hsegs s hs, hword s hs⟩) (by omega : word.length ≤ fuel)
      obtain ⟨e, s, hnext⟩ := hgreeting.next_none (by
        rintro seg rest ⟨body, -, rfl⟩ hsplit
        exact absurd (by rw [hsplit]; simp) htail)
      obtain ⟨fuel', rfl⟩ : ∃ n, fuel' = n + 1 := ⟨fuel' - 1, by omega⟩
      obtain ⟨h', herr⟩ := @driven_err core' fuel' _ _ hnext
      rw [hrun, herr]
      exact .failed (by simp)
  | cons seg rest =>
      obtain ⟨core', fuel', hfuel', hrun, hgreeting, -, hterm⟩ := h.upto hsegs hword hfuel
      have hinforms := hstop seg rest rfl
      rw [hrun]
      by_cases hwelcomes : Welcomes seg
      · obtain ⟨core'', h', hdone, -⟩ := hgreeting.welcomes hterm hwelcomes fuel'
        rw [hdone]
        exact .welcomed hword hwelcomes
      by_cases hinquires : Inquires seg ∧ cancelled = false
      · obtain ⟨hinquires, rfl⟩ := hinquires
        obtain ⟨ch, core'', hdone, hgreeting', -⟩ := hgreeting.inquires hterm hinquires (fuel' + 1)
        rw [hdone]
        exact .asked hword hinquires (hagain rfl
          (fun s hs => hsegs s (List.mem_append_right _ (List.mem_cons_of_mem _ hs)))
          hgreeting' (by omega))
      obtain ⟨e, s, hnext, hrejects⟩ := hgreeting.next_refused hterm hinforms hwelcomes hinquires
      obtain ⟨h', herr⟩ := @driven_err core' (fuel' + 1) _ _ hnext
      rw [herr]
      by_cases hcode : ∃ code, e = .greetingRejected code
      · obtain ⟨code, rfl⟩ := hcode
        exact .rejected hword ((hrejects code).mp rfl)
      · exact .failed fun code he => hcode ⟨code, he⟩

theorem Greeting.ended (hsegs : ∀ seg ∈ segs, Terminated lf seg) (htail : lf ∉ tail)
    (h : Greeting core cancelled (segs.flatten ++ tail)) (hfuel : segs.length + 1 < fuel) :
    Ended cancelled segs (driven fuel (begun core)).1 := by
  -- a second inquiry is refused, so the first is the only one to be asked
  have honce : ∀ {core' rest fuel'}, (∀ seg ∈ rest, Terminated lf seg) →
      Greeting core' true (rest.flatten ++ tail) → rest.length + 1 < fuel' →
      Ended true rest (driven fuel' (begun core')).1 := by
    intro core' rest fuel' hrest hgreeting hfuel'
    exact Greeting.ended_of (by simp) hrest htail hgreeting hfuel'
  exact Greeting.ended_of (fun _ => honce) hsegs htail h hfuel

/-- The traffic of a greeting that was accepted: only reads, or `CAN` between the
line that asks and the lines after it. What came in after the final line is
unread. -/
def Exchanged (cancelled : Bool) (word : List Bytes) (final : Bytes) (ch : Channel) : Prop :=
  if cancelled then
    ∃ (before : List Bytes) (asked : Bytes) (after rs rs' : List Bytes) (held : Bytes),
      word = before ++ asked :: after ∧ Inquires asked ∧
      ch.trace = rs.map .read ++ .wrote canLine :: rs'.map .read ∧
      rs.flatten = before.flatten ++ asked ++ held ∧
      held ++ rs'.flatten = after.flatten ++ final ++ ch.unreadBytes
  else ∃ rs : List Bytes, ch.trace = rs.map .read ∧
    rs.flatten = word.flatten ++ final ++ ch.unreadBytes

/-- What the client has when the greeting is over. -/
structure Accepted (cancelled : Bool) (word : List Bytes) (final input : Bytes)
    (core : SessionCore) : Prop where
  usable : core.isUsable = true
  exchanged : Exchanged cancelled word final core.channel
  rest : Ideal core.channel input
  ahead : core.channel.hasBufferedInput = false ↔ core.channel.unreadBytes = []

theorem Exchanged.advance {word : List Bytes} {final : Bytes} {ch ch' : Channel}
    (h : Exchanged cancelled word [] ch) (hadvances : Advances ch final ch') :
    Exchanged cancelled word final ch' := by
  obtain ⟨rs'', htrace', hsplit'⟩ := hadvances
  cases cancelled with
  | false =>
      obtain ⟨rs, htrace, hsplit⟩ := h
      refine ⟨rs ++ rs'', ?_, ?_⟩
      · rw [htrace', htrace, List.map_append]
      · rw [List.flatten_append, hsplit, List.append_nil, List.append_assoc, hsplit',
          List.append_assoc]
  | true =>
      obtain ⟨before, asked, after, rs, rs', held, hword, hasked, htrace, hsplit, hheld⟩ := h
      refine ⟨before, asked, after, rs, rs' ++ rs'', held, hword, hasked, ?_, hsplit, ?_⟩
      · rw [htrace', htrace, List.map_append, List.append_assoc, List.cons_append]
      · rw [List.flatten_append, ← List.append_assoc, hheld, List.append_nil, List.append_assoc,
          hsplit', List.append_assoc]

/-- The preamble is read up to the final line, and its inquiry is cancelled. -/
theorem Greeting.reach {word rest : List Bytes} {final : Bytes} (htrace : core.channel.trace = [])
    (hunread : core.channel.unreadBytes = [])
    (hsegs : ∀ seg ∈ word ++ final :: rest, Terminated lf seg) (hword : Preamble cancelled word)
    (h : Greeting core false ((word ++ final :: rest).flatten ++ tail))
    (hfuel : (word ++ final :: rest).length + 1 < fuel) :
    ∃ core' fuel', driven fuel (begun core) = driven (fuel' + 2) (begun core') ∧
      Greeting core' cancelled (final ++ (rest.flatten ++ tail)) ∧ Terminated lf final ∧
      Exchanged cancelled word [] core'.channel := by
  cases cancelled with
  | false =>
      obtain ⟨core', fuel', -, hrun, hgreeting, ⟨rs, hreads, hsplit⟩, hterm⟩ :=
        h.upto hsegs hword hfuel
      rw [htrace, List.nil_append] at hreads
      rw [hunread, List.nil_append] at hsplit
      refine ⟨core', fuel', hrun, hgreeting, hterm, rs, hreads, ?_⟩
      rw [hsplit, List.append_nil]
  | true =>
      obtain ⟨before, asked, after, rfl, hbefore, hasked, hafter⟩ := hword
      have hlist : before ++ asked :: after ++ final :: rest =
          before ++ asked :: (after ++ final :: rest) := by simp
      rw [hlist] at hsegs h hfuel
      obtain ⟨core₁, fuel₁, hfuel₁, hrun₁, hgreeting₁, hadvances₁, hterm₁⟩ :=
        h.upto hsegs hbefore hfuel
      obtain ⟨ch, core₂, hrun₂, hgreeting₂, hadvances₂, hwrote, hheld⟩ :=
        hgreeting₁.inquires hterm₁ hasked (fuel₁ + 1)
      obtain ⟨core', fuel', -, hrun₃, hgreeting₃, ⟨rs', hreads', hsplit'⟩, hterm₃⟩ :=
        hgreeting₂.upto
          (fun s hs => hsegs s (List.mem_append_right _ (List.mem_cons_of_mem _ hs))) hafter
          (by omega : _ + 1 < fuel₁ + 1)
      obtain ⟨rs, hreads, hsplit⟩ := hadvances₁.trans hadvances₂
      rw [htrace, List.nil_append] at hreads
      rw [hunread, List.nil_append] at hsplit
      refine ⟨core', fuel', hrun₁.trans (hrun₂.trans hrun₃), hgreeting₃, hterm₃, before, asked,
        after, rs, rs', ch.unreadBytes, rfl, hasked, ?_, hsplit, ?_⟩
      · rw [hreads', hwrote, hreads]
        simp
      · rw [← hheld, hsplit', List.append_nil]

theorem Says.unique {seg : Bytes} {parsed parsed' : ServerLine} (h : Says seg parsed)
    (h' : Says seg parsed') : parsed = parsed' := Outcome.ok.inj (h.2.symm.trans h'.2)

/-- A line that rejects is nothing else. -/
theorem Rejects.excludes {code : UInt32} {seg : Bytes} (h : Rejects code seg) :
    ¬ Informs seg ∧ ¬ Welcomes seg ∧ ¬ Inquires seg := by
  obtain ⟨text, hmeans⟩ := h
  refine ⟨?_, ?_, ?_⟩
  · rintro ⟨parsed, hmeans', hkind⟩
    obtain rfl := hmeans.unique hmeans'
    exact absurd hkind (by simp [ServerLine.kind])
  · rintro ⟨text', hmeans'⟩
    exact absurd (hmeans.unique hmeans') (by simp)
  · rintro ⟨keyword, args, hmeans'⟩
    exact absurd (hmeans.unique hmeans') (by simp)

/-! ### Starting -/

/-- Every duration and the limit are positive. -/
def ClientOptions.Valid (options : ClientOptions) : Prop :=
  options.maxInquiryBytes ≠ 0 ∧ options.connectTimeout ≠ 0 ∧ options.greetingTimeout ≠ 0 ∧
    options.commandTimeout ≠ 0 ∧ options.inquiryTimeout ≠ 0

theorem ClientOptions.default_valid : ClientOptions.default.Valid := by
  unfold ClientOptions.Valid
  decide

/-- Valid options are found valid, if no instant overflows. -/
theorem handshake_begun {options : ClientOptions} (hvalid : options.Valid) (stream : Stream) :
    Client.handshake stream [] [] [] options =
      begun (Client.session stream [] [] [] options) := by
  obtain ⟨hmax, hconnect, hgreeting, hcommand, hinquiry⟩ := hvalid
  have hdeadline : ∀ {duration : ℕ}, duration ≠ 0 →
      deadline duration (Client.session stream [] [] [] options) =
        (.ok (), Client.session stream [] [] [] options) := deadline_ok rfl
  have hvalidate : options.validate (Client.session stream [] [] [] options) =
      (.ok (), Client.session stream [] [] [] options) := by
    rw [ClientOptions.validate, if_neg hmax]
    simp only [Action.forEach]
    rw [Action.bind_ok (hdeadline hconnect), Action.bind_ok (hdeadline hgreeting),
      Action.bind_ok (hdeadline hcommand), Action.bind_ok (hdeadline hinquiry)]
    rfl
  have hvalidated : Client.validated options (Client.session stream [] [] [] options) =
      (.ok (), Client.session stream [] [] [] options) := by
    rw [Client.validated, Action.bind_ok hvalidate]
    exact hdeadline hgreeting
  rw [Client.handshake, hvalidated]
  rfl

theorem greeting_session (chunks : List Chunk) (options : ClientOptions) :
    Greeting (Client.session ⟨chunks.map .data, []⟩ [] [] [] options) false
      (chunks.map Chunk.bytes).flatten := by
  obtain ⟨hinvalid, hclosed, hinquiry⟩ := waiting_live false
  exact ⟨⟨ideal_new chunks, live_of_certain rfl ⟨hinvalid, hclosed⟩, hinquiry, rfl, rfl⟩, rfl⟩

/-- The forms that a greeting can have up to its final line. -/
theorem Ended.forms {o : Outcome ClientError SessionCore} (h : Ended false segs o) :
    (∃ core, o = .ok core ∧ ∃ cancelled word final rest, segs = word ++ final :: rest ∧
      Preamble cancelled word ∧ Welcomes final) ∨
    (∃ code, o = .err (.greetingRejected code) ∧ ∃ cancelled word final rest,
      segs = word ++ final :: rest ∧ Preamble cancelled word ∧ Rejects code final) ∨
    ∃ e, o = .err e ∧ ∀ code, e ≠ .greetingRejected code := by
  cases h with
  | welcomed hword hfinal => exact Or.inl ⟨_, rfl, false, _, _, _, rfl, hword, hfinal⟩
  | rejected hword hfinal => exact Or.inr (Or.inl ⟨_, rfl, false, _, _, _, rfl, hword, hfinal⟩)
  | failed hcode => exact Or.inr (Or.inr ⟨_, rfl, hcode⟩)
  | @asked _ before _ asked hbefore hasked hrest =>
      cases hrest with
      | @welcomed _ _ after rest final hafter hfinal =>
          exact Or.inl ⟨_, rfl, true, before ++ asked :: after, final, rest, by simp,
            ⟨before, asked, after, rfl, hbefore, hasked, hafter⟩, hfinal⟩
      | @rejected _ _ after rest final hafter hfinal =>
          exact Or.inr (Or.inl ⟨_, rfl, true, before ++ asked :: after, final, rest, by simp,
            ⟨before, asked, after, rfl, hbefore, hasked, hafter⟩, hfinal⟩)
      | failed hcode => exact Or.inr (Or.inr ⟨_, rfl, hcode⟩)

/-- **The automatic greeting accepts exactly its grammar.** A server sends lines,
then perhaps a part of a line, in any pieces, and closes. A client comes out of
`from_stream` exactly if the lines start with information, or with information
around one inquiry, and then `OK`. It is usable; it has written nothing, or `CAN`
after the line that asked, and no byte after the `OK` line was taken. A rejection
in that place is reported with its code, and all else is another error. -/
theorem greeting_exact {options : ClientOptions} (hvalid : options.Valid) (chunks : List Chunk)
    (hsegs : ∀ seg ∈ segs, Terminated lf seg) (htail : lf ∉ tail)
    (hinput : (chunks.map Chunk.bytes).flatten = segs.flatten ++ tail) :
    let run := (Client.fromStream ⟨chunks.map .data, []⟩ [] [] [] options).1
    (∀ cancelled word final rest, segs = word ++ final :: rest → Preamble cancelled word →
      Welcomes final → ∃ core, run = .ok core ∧
        Accepted cancelled word final (rest.flatten ++ tail) core) ∧
    ((∃ core, run = .ok core) → ∃ cancelled word final rest, segs = word ++ final :: rest ∧
      Preamble cancelled word ∧ Welcomes final) ∧
    (∀ code, run = .err (.greetingRejected code) ↔ ∃ cancelled word final rest,
      segs = word ++ final :: rest ∧ Preamble cancelled word ∧ Rejects code final) ∧
    ((∃ core, run = .ok core) ∨ ∃ e, run = .err e) := by
  intro run
  have hgreeting := greeting_session chunks options
  rw [hinput] at hgreeting
  have hfuel : segs.length + 1 < (Channel.new ⟨chunks.map .data, []⟩ []).supply + 2 := by
    have hlines := length_le_flatten hsegs
    rw [(ideal_new chunks).supply, hinput, List.length_append]
    omega
  have hrun : run = (driven ((Channel.new ⟨chunks.map .data, []⟩ []).supply + 2)
      (begun (Client.session ⟨chunks.map .data, []⟩ [] [] [] options))).1 := by
    rw [driven, ← handshake_begun hvalid]
    rfl
  have hunread : (Client.session ⟨chunks.map .data, []⟩ [] [] [] options).channel.unreadBytes =
      [] := rfl
  have hended : Ended false segs run := by
    rw [hrun]
    exact hgreeting.ended hsegs htail hfuel
  refine ⟨?_, ?_, ?_, ?_⟩
  · rintro cancelled word final rest rfl hword hfinal
    obtain ⟨core₁, fuel, hreach, hgreeting₁, hterm, hexchanged⟩ :=
      hgreeting.reach rfl hunread hsegs hword hfuel
    obtain ⟨core, h', hdone, husable, hideal, hadvances⟩ := hgreeting₁.welcomes hterm hfinal fuel
    refine ⟨core, ?_, husable, hexchanged.advance hadvances, hideal,
      hasBufferedInput_eq_false hideal.standing⟩
    rw [hrun, hreach, hdone]
  · rintro ⟨core, hok⟩
    rcases hended.forms with ⟨core', -, hform⟩ | ⟨code, herr, -⟩ | ⟨e, herr, -⟩
    · exact hform
    · exact absurd (hok.symm.trans herr) (by simp)
    · exact absurd (hok.symm.trans herr) (by simp)
  · intro code
    constructor
    · intro hcode
      rcases hended.forms with ⟨core', hok, -⟩ | ⟨code', herr, hform⟩ | ⟨e, herr, hother⟩
      · exact absurd (hcode.symm.trans hok) (by simp)
      · obtain rfl : code = code' :=
          ClientError.greetingRejected.inj (Outcome.err.inj (hcode.symm.trans herr))
        exact hform
      · exact absurd (Outcome.err.inj (herr.symm.trans hcode)) (hother code)
    · rintro ⟨cancelled, word, final, rest, rfl, hword, hfinal⟩
      obtain ⟨core₁, fuel, hreach, hgreeting₁, hterm, -⟩ :=
        hgreeting.reach rfl hunread hsegs hword hfuel
      obtain ⟨hinforms, hwelcomes, hinquires⟩ := hfinal.excludes
      obtain ⟨e, s, hnext, hrejects⟩ := hgreeting₁.next_refused hterm hinforms hwelcomes
        fun h => hinquires h.1
      obtain ⟨h', herr⟩ := @driven_err core₁ (fuel + 1) _ _ hnext
      rw [hrun, hreach, herr, (hrejects code).mpr hfinal]
  · rcases hended.forms with ⟨core, hok, -⟩ | ⟨code, herr, -⟩ | ⟨e, herr, -⟩
    · exact Or.inl ⟨core, hok⟩
    · exact Or.inr ⟨_, herr⟩
    · exact Or.inr ⟨e, herr⟩

/-- A greeting with an inquiry, and a comment right after it, in one piece. -/
def askedGreeting : List Bytes := [asBytes "INQUIRE AUTH\n", asBytes "OK hi\n", asBytes "# later\n"]

theorem askedGreeting_fits : askedGreeting.flatten ≠ [] ∧
    askedGreeting.flatten.length ≤ maxLineBytes := by decide

def askedChunk : Chunk := ⟨askedGreeting.flatten, askedGreeting_fits.1, askedGreeting_fits.2⟩

theorem greeting_exact_asked : ∃ core,
    (Client.fromStream ⟨[.data askedChunk], []⟩ [] [] [] .default).1 = .ok core ∧
      Accepted true [asBytes "INQUIRE AUTH\n"] (asBytes "OK hi\n") (asBytes "# later\n") core := by
  have hsegs : ∀ seg ∈ askedGreeting, Terminated lf seg := by
    intro seg hseg
    simp only [askedGreeting, List.mem_cons, List.not_mem_nil, or_false] at hseg
    rcases hseg with rfl | rfl | rfl
    · exact ⟨asBytes "INQUIRE AUTH", by decide, by decide⟩
    · exact ⟨asBytes "OK hi", by decide, by decide⟩
    · exact ⟨asBytes "# later", by decide, by decide⟩
  have hasked : Inquires (asBytes "INQUIRE AUTH\n") :=
    ⟨"AUTH", [], by decide, by decide +kernel⟩
  have hwelcomes : Welcomes (asBytes "OK hi\n") := ⟨asBytes "hi", by decide, by decide +kernel⟩
  have h := greeting_exact ClientOptions.default_valid [askedChunk] hsegs
    (List.not_mem_nil : lf ∉ ([] : Bytes)) (by decide +kernel)
  exact h.1 true [asBytes "INQUIRE AUTH\n"] (asBytes "OK hi\n") [asBytes "# later\n"] rfl
    ⟨[], _, [], rfl, by simp, hasked, by simp⟩ hwelcomes

end Whole

end Assuan
