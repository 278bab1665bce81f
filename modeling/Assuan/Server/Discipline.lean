import Assuan.Server.ContextSpec
import Assuan.Server.Session

/-!
# Wire discipline of the server

The lines a session writes fall into blocks, one for the greeting and one for
each command line, and a block has at most one final response, at its end. The
argument goes up in four steps: what a callback can leave behind (§2), what
`finalize` adds (§3), what one command does (§4), and whole runs by induction on
the loop (§5).
-/

namespace Assuan

open Channel LineBuffer

/-! ## §1  Blocks -/

namespace Block

/-- The complete lines written in a block. -/
def lines (block : Block) : List Bytes := (splitAfter lf (written block.traffic)).1

/-- An operation failed or was dropped, an inquiry was left unfinished, or the
callback returned an error that has no response, or did not return. -/
def Broken (block : Block) : Prop :=
  block.faulty = true ∨
  match block.result with
  | none => True
  | some (.ok ()) => False
  | some (.error e) => e.isFatal = true ∨ e.validateRemote ≠ .ok ()

end Block

/-- Traffic whose output is lines of progress and one final line. -/
def Complete (traffic : List Io) : Prop :=
  ∃ (lines : List Bytes) (final : Bytes), written traffic = lines.flatten ++ final ∧
    (∀ line ∈ lines, Progress line) ∧ Terminated lf final ∧ isFinalLine final = true

/-- After the traffic `before` a complete block was written. -/
def Answered (before : List Io) (ch : Channel) : Prop :=
  ∃ since, ch.trace = before ++ since ∧ Complete since

theorem Answered.reads {before : List Io} {ch ch' : Channel} (h : Answered before ch)
    {rs : List Bytes} (htrace : ch'.trace = ch.trace ++ rs.map .read) : Answered before ch' := by
  obtain ⟨since, hbefore, lines, final, hwritten, hlines, hterm, hfinal⟩ := h
  refine ⟨since ++ rs.map .read, ?_, lines, final, ?_, hlines, hterm, hfinal⟩
  · rw [htrace, hbefore, List.append_assoc]
  · rw [written_append, written_reads, List.append_nil, hwritten]

theorem Complete.lines {block : Block} (h : Complete block.traffic) :
    ∃ (init : List Bytes) (final : Bytes), splitAfter lf (written block.traffic) = (init ++ [final], []) ∧
      (∀ line ∈ init, Progress line) ∧ Terminated lf final ∧ isFinalLine final = true := by
  obtain ⟨init, final, hwritten, hinit, hterm, hfinal⟩ := h
  refine ⟨init, final, ?_, hinit, hterm, hfinal⟩
  have hall : ∀ seg ∈ init ++ [final], Terminated lf seg := by
    intro seg hseg
    rcases List.mem_append.mp hseg with hseg | hseg
    · exact (hinit seg hseg).1
    · rw [List.mem_singleton.mp hseg]
      exact hterm
  have hsplit := splitAfter_flatten [] hall
  rw [List.append_nil, List.flatten_append, List.flatten_singleton, ← hwritten] at hsplit
  rw [hsplit]
  simp [splitAfter]

/-- The output of complete blocks is their lines. -/
theorem written_blocks {blocks : List Block} (h : ∀ block ∈ blocks, Complete block.traffic) :
    written (blocks.map Block.traffic).flatten = (blocks.map Block.lines).flatten.flatten ∧
      ∀ seg ∈ (blocks.map Block.lines).flatten, Terminated lf seg := by
  induction blocks with
  | nil => exact ⟨rfl, by simp⟩
  | cons block blocks ih =>
      obtain ⟨hwritten, hterm⟩ := ih fun b hb => h b (List.mem_cons_of_mem _ hb)
      have hcomplete := h block List.mem_cons_self
      obtain ⟨init, final, hsplit, hinit, hfinal, -⟩ := hcomplete.lines
      have hlines : block.lines = init ++ [final] := by rw [Block.lines, hsplit]
      have hblock : ∀ seg ∈ block.lines, Terminated lf seg := by
        intro seg hseg
        rw [hlines] at hseg
        rcases List.mem_append.mp hseg with hseg | hseg
        · exact (hinit seg hseg).1
        · rw [List.mem_singleton.mp hseg]
          exact hfinal
      have hout : written block.traffic = block.lines.flatten := by
        rw [← splitAfter_join lf (written block.traffic), hsplit, hlines]
        simp
      constructor
      · rw [List.map_cons, List.flatten_cons, written_append, hwritten, hout, List.map_cons,
          List.flatten_cons, List.flatten_append]
      · intro seg hseg
        rw [List.map_cons, List.flatten_cons, List.mem_append] at hseg
        rcases hseg with hseg | hseg
        · exact hblock seg hseg
        · exact hterm seg hseg

theorem Complete.final_last {block : Block} (h : Complete block.traffic) :
    (∀ line ∈ block.lines.dropLast, isFinalLine line = false) ∧
      ∃ line, block.lines.getLast? = some line ∧ isFinalLine line = true := by
  obtain ⟨init, final, hsplit, hinit, -, hfinal⟩ := h.lines
  have hlines : block.lines = init ++ [final] := by rw [Block.lines, hsplit]
  rw [hlines]
  refine ⟨?_, final, by simp, hfinal⟩
  intro line hline
  rw [List.dropLast_concat] at hline
  exact (hinit line hline).2

/-- The write of a final line: it is there, or the block ends without one. -/
theorem Tidy.writeFinal {before : List Io} {opened : List Bytes} {ch : Channel}
    (h : Tidy before opened ch) {line : Bytes} (hterm : Terminated lf line)
    (hfinal : isFinalLine line = true) :
    Action.Post (Channel.writeLine line) ch fun o ch' =>
      Heard False opened ch' ∧ (o.Failed ∧ Said False before ch' ∨ Answered before ch') ∧
      (o = .ok () → Standing ch' ∧ Answered before ch' ∧
        Heard (ch'.stream.isSome = true) opened ch') := by
  have e := writeLine_effect h.standing line
  apply Action.Post.intro
  intro o ch' hrun
  rw [hrun] at e
  have hfail : o ≠ .ok () → o.Failed := fun hne a ha => hne ha
  by_cases hok : o = .ok ()
  · subst hok
    have hopen : ch.stream.isSome = true := by
      cases hstream : ch.stream with
      | none =>
          obtain ⟨⟨error, herr⟩, -⟩ := e.closed hstream
          exact absurd herr (by simp)
      | some stream => rfl
    obtain ⟨htrace, hkept⟩ := e.sent rfl
    obtain ⟨since, lines, rest, hbefore, hwritten, hlines, -, hlive⟩ := h.said
    obtain rfl : rest = [] := hlive hopen
    have hanswered : Answered before ch' := by
      refine ⟨since ++ [.wrote line], ?_, lines, line, ?_, hlines, hterm, hfinal⟩
      · rw [htrace, hbefore, List.append_assoc]
      · rw [written_append, hwritten, written_wrote, List.append_nil]
    have hheard := (h.heard.weaken fun _ : True => hopen).wrote htrace fun _ => hkept
    exact ⟨hheard.weaken False.elim, Or.inr hanswered,
      fun _ => ⟨e.standing, hanswered, hheard.weaken fun _ => trivial⟩⟩
  · refine ⟨?_, ?_, fun h => absurd h hok⟩
    · rcases e.trace with htrace | ⟨n, htrace⟩
      · exact (h.loose.same htrace).heard
      · exact h.loose.heard.wrote htrace False.elim
    · cases hstream : ch.stream with
      | none => exact Or.inl ⟨hfail hok, (h.loose.same (e.closed hstream).2).said⟩
      | some stream =>
          rcases e.trace with htrace | ⟨n, htrace⟩
          · exact Or.inl ⟨hfail hok, (h.loose.same htrace).said⟩
          · obtain ⟨since, lines, rest, hbefore, hwritten, hlines, -, hlive⟩ := h.said
            obtain rfl : rest = [] := hlive (by simp [hstream])
            have hsplit : ch'.trace = before ++ (since ++ [.wrote (line.take n)]) := by
              rw [htrace, hbefore, List.append_assoc]
            -- all of the line may have been accepted although the write failed
            rcases take_terminated hterm n with hwhole | htorn
            · refine Or.inr ⟨_, hsplit, lines, line, ?_, hlines, hterm, hfinal⟩
              rw [written_append, hwritten, written_wrote, List.append_nil, hwhole]
            · refine Or.inl ⟨hfail hok, _, lines, line.take n, hsplit, ?_, hlines, htorn, False.elim⟩
              rw [written_append, hwritten, written_wrote, List.append_nil]

/-! ## §2  Callbacks -/

theorem Outcome.isOk_iff {ε α : Type} {o : Outcome ε α} : o.isOk = true ↔ ¬ o.Failed := by
  cases o <;> simp [Outcome.isOk]

theorem Outcome.isOk_eq_false {ε α : Type} {o : Outcome ε α} (h : (!o.isOk) = true) :
    o.Failed := by
  cases o <;> simp_all [Outcome.isOk]

namespace Program

variable {S : Type} {before : List Io} {opened : List Bytes}

/-- The invariant of a callback. After a fault the machine is blocked as long as
the context is held, and beyond repair while a guard is. -/
def Sound (before : List Io) (opened : List Bytes) : (mode : Mode) → Held mode → Bool → Prop
  | .context, link, faulty =>
      Tidy before opened link.channel ∧ (faulty = true → Blocked link.machine)
  | .inquiry, inquiry, faulty =>
      Tidy before opened inquiry.link.channel ∧ Blocked inquiry.link.machine ∧
        (faulty = true → Stuck inquiry.link.machine)

theorem sound_operated {α : Type} {link link' : Link} {o : Outcome HandlerError α} {faulty : Bool}
    (h : Sound before opened .context link faulty) (hop : Link.Operated before opened link o link') :
    Sound before opened .context link' (faulty || !o.isOk) := by
  refine ⟨hop.tidy, ?_⟩
  intro hfaulty
  rcases Bool.or_eq_true_iff.mp hfaulty with hfaulty | hfailed
  · exact hop.blocked (h.2 hfaulty)
  · exact (hop.dead (Outcome.isOk_eq_false hfailed)).stuck.blocked

theorem sound_advanced {α : Type} {inquiry inquiry' : ServerInquiry} {o : Outcome HandlerError α}
    {faulty : Bool} (h : Sound before opened .inquiry inquiry faulty)
    (hadvanced : ServerInquiry.Advanced before opened inquiry o.Failed inquiry') :
    Sound before opened .inquiry inquiry' (faulty || !o.isOk) := by
  obtain ⟨-, hblocked, hstuck⟩ := h
  rcases o.ok_or_failed with ⟨a, rfl⟩ | hfail
  · have hsame := hadvanced.same (by simp)
    refine ⟨hadvanced.tidy, by rw [hsame]; exact hblocked, ?_⟩
    intro hfaulty
    rw [hsame]
    exact hstuck (by simpa [Outcome.isOk] using hfaulty)
  · exact ⟨hadvanced.tidy, (hadvanced.dead hfail).stuck.blocked,
      fun _ => (hadvanced.dead hfail).stuck⟩

theorem sound_finish {inquiry : ServerInquiry} {faulty : Bool}
    (h : Sound before opened .inquiry inquiry faulty) :
    Sound before opened .context inquiry.finish.2 (faulty || !inquiry.finish.1.isOk) := by
  obtain ⟨htidy, -, hstuck⟩ := h
  obtain ⟨htidy', hdead, hstay⟩ := ServerInquiry.finish_post htidy
  refine ⟨htidy', ?_⟩
  intro hfaulty
  rcases Bool.or_eq_true_iff.mp hfaulty with hfaulty | hfailed
  · exact (hdead (hstay (hstuck hfaulty))).stuck.blocked
  · exact (hdead (Outcome.isOk_eq_false hfailed)).stuck.blocked

/-- Whatever a callback does, it leaves tidy books, and a blocked machine if
anything went wrong. By induction on the callback. -/
theorem run_sound (limit : ℕ) {mode : Mode} (p : Program S mode) :
    ∀ (held : Held mode) (faulty : Bool), Sound before opened mode held faulty →
      Sound before opened .context (p.run limit held faulty).link (p.run limit held faulty).faulty := by
  induction p with
  | done result state =>
      intro link faulty h
      exact h
  | expire state =>
      intro link faulty h
      exact h
  | sendData data k ih =>
      intro link faulty h
      rw [run]
      exact ih _ _ _ (sound_operated h (Link.sendData_operated h.1 data))
  | sendStatus keyword args k ih =>
      intro link faulty h
      rw [run]
      exact ih _ _ _ (sound_operated h (Link.sendStatus_operated h.1 keyword args))
  | inquire keyword args sensitivity opened' failed ihopened ihfailed =>
      intro link faulty h
      obtain ⟨hop, hinquiry⟩ := Link.begin_operated h.1 keyword args
      rw [run]
      by_cases hok : (ServerInquiry.begin keyword args link).1.isOk = true
      · -- an inquiry opens only if nothing has gone wrong before
        obtain ⟨hfree, hstate⟩ := hinquiry (Outcome.isOk_iff.mp hok)
        simp only [hok, if_true]
        apply ihopened
        exact ⟨hop.tidy, Or.inl hstate, fun hfaulty => absurd (h.2 hfaulty) hfree⟩
      · simp only [hok, Bool.false_eq_true, if_false]
        apply ihfailed
        exact ⟨hop.tidy, fun _ => (hop.dead (by simpa [Outcome.isOk_iff] using hok)).stuck.blocked⟩
  | next k ih =>
      intro inquiry faulty h
      obtain ⟨hadvanced, -⟩ := ServerInquiry.next_post h.1 h.2.1
      rw [run]
      exact ih _ _ _ (sound_advanced h hadvanced)
  | finish k ih =>
      intro inquiry faulty h
      rw [run]
      exact ih _ _ _ (sound_finish h)
  -- `Drop` abandons the session, which is the fault itself
  | drop k ih =>
      intro inquiry faulty h
      rw [run]
      apply ih
      exact ⟨h.1.loose.close, fun _ => (Link.dead_abandon inquiry.link).stuck.blocked⟩
  | forget k ih =>
      intro inquiry faulty h
      rw [run]
      apply ih
      exact ⟨h.1, fun _ => h.2.1⟩

end Program

/-! ## §3  The final response -/

namespace Session

variable {S : Type} {before : List Io} {opened : List Bytes} {session session' : Session S}

/-- An operation of the link moves the link alone. -/
theorem onLink_apply {α : Type} (session : Session S) {x : Action Link HandlerError α}
    {o : Outcome HandlerError α} {link : Link} (h : x session.link = (o, link)) :
    onLink x session = (o.mapErr .ofHandler, { session with link := link }) :=
  Action.mapErr_apply (Action.zoom_apply h)

/-- An operation of the channel moves the channel alone. -/
theorem onLink_onChannel {α : Type} (session : Session S) {x : Action Channel TransportError α}
    {o : Outcome TransportError α} {ch : Channel} (h : x session.link.channel = (o, ch)) :
    onLink (Link.onChannel x) session = ((o.mapErr HandlerError.transport).mapErr .ofHandler,
      { session with link := ⟨ch, session.link.machine⟩ }) :=
  onLink_apply session (Action.mapErr_apply (Action.zoom_apply h))

theorem rejectFatal_cases (result : Except HandlerError Unit) :
    (rejectFatal result = .ok () ∧ ∀ e, result = .error e → e.isFatal = false) ∨
    ∃ e, rejectFatal result = .err e := by
  cases result with
  | ok u => exact Or.inl ⟨rfl, fun e h => by simp at h⟩
  | error e =>
      by_cases hfatal : e.isFatal = true
      · exact Or.inr ⟨_, by rw [rejectFatal, if_pos hfatal]⟩
      · refine Or.inl ⟨by rw [rejectFatal, if_neg hfatal], ?_⟩
        intro e' he
        rw [← Except.error.inj he]
        simpa using hfatal

theorem mayFinish_cases (machine : ServerMachine) :
    (mayFinish machine = .ok () ∧ ¬ Blocked machine) ∨
      mayFinish machine = .err (.state .unusable) := by
  unfold mayFinish Blocked
  cases machine.state <;> simp

theorem validateMessage_cases (code : UInt32) (message : String) :
    validateMessage code message = .ok () ∨ ∃ e, validateMessage code message = .err e := by
  unfold validateMessage
  rcases encoded_cases (encodeResponse_writesLine (.err code (asBytes message)) (Buffer.zero _))
    with ⟨hok, -⟩ | ⟨⟨e, he⟩, -⟩
  · rw [hok]
    exact Or.inl rfl
  · rw [he]
    exact Or.inr ⟨e, rfl⟩

theorem finalLine_cases (result : Except HandlerError Unit) :
    (∃ line, finalLine result = .ok line ∧ (line.kind = .ok ∨ line.kind = .err) ∧
      FieldsValid line ∧ ∀ e, result = .error e → e.validateRemote = .ok ()) ∨
    ∃ e, finalLine result = .err e := by
  cases result with
  | ok u => exact Or.inl ⟨.ok [], rfl, Or.inl rfl, trivial, fun e h => by simp at h⟩
  | error e =>
      cases e with
      | remote code message =>
          rcases validateMessage_cases code message with hok | ⟨e, he⟩
          · refine Or.inl ⟨.err code (asBytes message), ?_, Or.inr rfl, trivial, ?_⟩
            · rw [finalLine, HandlerError.validateRemote, hok]
              rfl
            · intro e he
              rw [← Except.error.inj he]
              exact hok
          · refine Or.inr ⟨.protocol e, ?_⟩
            rw [finalLine, HandlerError.validateRemote, he]
            rfl
      | internal =>
          refine Or.inl ⟨_, rfl, Or.inr rfl, trivial, ?_⟩
          intro e he
          rw [← Except.error.inj he]
          rfl
      | transport e => exact Or.inr ⟨_, rfl⟩
      | protocol e => exact Or.inr ⟨_, rfl⟩
      | state e => exact Or.inr ⟨_, rfl⟩
      | limit e => exact Or.inr ⟨_, rfl⟩

/-- After a final response the machine is ready, or it refuses everything. -/
theorem sendResponse_final {machine : ServerMachine} {kind : LineKind}
    (hkind : kind = .ok ∨ kind = .err) (h : (machine.sendResponse kind).1 = .ok ()) :
    (machine.sendResponse kind).2.state = .ready ∨ Stuck (machine.sendResponse kind).2 := by
  unfold ServerMachine.sendResponse at h ⊢
  rcases hkind with rfl | rfl
  · cases hstate : machine.state <;> simp_all
  · cases hstate : machine.state <;> simp_all
    · exact Or.inr (stuck_invalidate machine)
    · by_cases horigin : machine.inquiryOrigin = .greeting
      · simp only [horigin, if_true] at h ⊢
        exact Or.inr (stuck_invalidate machine)
      · simp [horigin]

/-- Where `finalize` can lead: only the link changes, and the block is answered
unless it ends here without a response. -/
structure Finalized (before : List Io) (opened : List Bytes) (session : Session S)
    (o : Outcome ServerError Unit) (session' : Session S) : Prop where
  same : ∃ link, session' = { session with link := link }
  heard : Heard False opened session'.link.channel
  wrote : o.Failed ∧ Said False before session'.link.channel ∨
    Answered before session'.link.channel ∧ ¬ session.current.Broken
  done : o = .ok () → Standing session'.link.channel ∧ Answered before session'.link.channel ∧
    Heard (session'.link.channel.stream.isSome = true) opened session'.link.channel ∧
    (session'.link.machine.state = .ready ∨ Stuck session'.link.machine)

theorem Finalized.stopped (h : Tidy before opened session.link.channel) (e : ServerError) :
    Finalized before opened session (.err e) session :=
  ⟨⟨session.link, rfl⟩, h.loose.heard, Or.inl ⟨Outcome.failed_err e, h.loose.said⟩, by simp⟩

/-- Not broken: nothing went wrong and the result has a response. -/
theorem not_broken {result : Except HandlerError Unit} (hresult : session.result = some result)
    (hfaulty : session.faulty = false) (hfatal : ∀ e, result = .error e → e.isFatal = false)
    (hremote : ∀ e, result = .error e → e.validateRemote = .ok ()) :
    ¬ session.current.Broken := by
  rintro (h | h)
  · exact absurd (hfaulty.symm.trans h) (by simp)
  · have hcurrent : session.current.result = some result := hresult
    rw [hcurrent] at h
    cases result with
    | ok u => exact h
    | error e =>
        rcases h with h | h
        · rw [hfatal e rfl] at h
          exact absurd h (by simp)
        · exact h (hremote e rfl)

theorem finalize_post {result : Except HandlerError Unit} (greeting : Bool)
    (h : Tidy before opened session.link.channel) (hresult : session.result = some result)
    (hfault : session.faulty = true → Blocked session.link.machine ∨
      ∃ e, result = .error e ∧ e.isFatal = true) :
    Action.Post (finalize result greeting) session (Finalized before opened session) := by
  unfold finalize
  rcases rejectFatal_cases result with ⟨hpass, hfatal⟩ | ⟨e, hstop⟩
  swap
  · rw [hstop, Action.lift_err_bind]
    exact Action.Post.lift (.stopped h e)
  rw [hpass, Action.lift_ok_bind]
  apply Action.Post.get_bind
  rcases mayFinish_cases session.link.machine with ⟨hpass', hfree⟩ | hstop
  swap
  · rw [hstop, Action.lift_err_bind]
    exact Action.Post.lift (.stopped h _)
  rw [hpass', Action.lift_ok_bind]
  rcases finalLine_cases result with ⟨line, hline, hkind, hvalid, hremote⟩ | ⟨e, hstop⟩
  swap
  · rw [hstop, Action.lift_err_bind]
    exact Action.Post.lift (.stopped h e)
  rw [hline, Action.lift_ok_bind]
  rcases encoded_cases (encodeResponse_writesLine line (Buffer.zero _)) with
    ⟨hbytes, -, hclean, -⟩ | ⟨⟨e, hstop⟩, -⟩
  swap
  · rw [hstop, Outcome.mapErr_err, Action.lift_err_bind]
    exact Action.Post.lift (.stopped h _)
  rw [hbytes, Outcome.mapErr_ok, Action.lift_ok_bind]
  have hfaulty : session.faulty = false := by
    by_contra hbad
    rcases hfault (by simpa using hbad) with hblocked | ⟨e, he, hisFatal⟩
    · exact hfree hblocked
    · rw [hfatal e he] at hisFatal
      exact absurd hisFatal (by simp)
  have hsound := not_broken hresult hfaulty hfatal hremote
  have hfinal : isFinalLine (responseBody line ++ [lf]) = true := by
    rw [isFinalLine_response hvalid hclean]
    simpa using hkind
  -- the machine agrees, or the session ends here
  rcases Link.sendResponse_cases session.link line.kind with ⟨hanswer, hsend⟩ | ⟨e, hsend⟩
  swap
  · apply Action.Post.bind_failed (onLink_apply session hsend) (Outcome.failed_err _)
    exact ⟨⟨_, rfl⟩, h.loose.heard, Or.inl ⟨Outcome.failed_err _, h.loose.said⟩,
      fun hok => absurd hok (by simp [Outcome.relabel])⟩
  apply Action.Post.bind_ok (onLink_apply session hsend)
  have hstate := sendResponse_final hkind hanswer
  obtain ⟨hheard, hwrote, hdone⟩ := h.writeFinal (terminated_of_clean hclean) hfinal
  rcases hwrite : Channel.writeLine (responseBody line ++ [lf]) session.link.channel with ⟨o, ch⟩
  rw [hwrite] at hheard hwrote hdone
  have hrun : onLink (Link.writeLine (responseBody line ++ [lf])) { session with
      link := ⟨session.link.channel, (session.link.machine.sendResponse line.kind).2⟩ } =
      ((o.mapErr HandlerError.transport).mapErr .ofHandler, { session with
        link := ⟨ch, (session.link.machine.sendResponse line.kind).2⟩ }) :=
    onLink_onChannel _ hwrite
  rcases o.ok_or_failed with ⟨a, rfl⟩ | ho
  · apply Action.Post.bind_ok hrun
    obtain ⟨hstanding, hanswered, hheard'⟩ := hdone rfl
    apply Action.Post.lift
    exact ⟨⟨_, rfl⟩, hheard, Or.inr ⟨hanswered, hsound⟩,
      fun _ => ⟨hstanding, hanswered, hheard', hstate⟩⟩
  · have hfailed := (ho.mapErr HandlerError.transport).mapErr ServerError.ofHandler
    apply Action.Post.bind_failed hrun hfailed
    refine ⟨⟨_, rfl⟩, hheard, ?_, fun hok => absurd hok (hfailed.relabel _)⟩
    rcases hwrote with ⟨-, hsaid⟩ | hanswered
    · exact Or.inl ⟨hfailed.relabel, hsaid⟩
    · exact Or.inr ⟨hanswered, hsound⟩

/-! ## §4  One command -/

/-- The command line ends its session. -/
def isBye (line : Bytes) : Bool :=
  match Command.parse line with
  | .ok command => command.name = "BYE"
  | .err _ => false
  | .panic => false
  | .dropped => false

/-- The command lines up to the first `BYE`, and this one. -/
def throughBye : List Bytes → List Bytes
  | [] => []
  | first :: rest => if isBye first then [first] else first :: throughBye rest

theorem throughBye_append {lines : List Bytes} (h : ∀ line ∈ lines, isBye line = false)
    (rest : List Bytes) : throughBye (lines ++ rest) = lines ++ throughBye rest := by
  induction lines with
  | nil => rfl
  | cons line lines ih =>
      have hfirst := h line List.mem_cons_self
      rw [List.cons_append, throughBye, hfirst, ih fun l hl => h l (List.mem_cons_of_mem _ hl)]
      rfl

/-- The finished blocks of a session: each is complete and sound, together they
are the traffic `before` the current one, and the openers are the opened command
lines. -/
structure History (before : List Io) (opened : List Bytes) (session : Session S) : Prop where
  past : ∀ block ∈ session.past, Complete block.traffic ∧ ¬ block.Broken
  traffic : (session.past.map Block.traffic).flatten = before
  mark : session.mark = before.length
  openers : session.past.map Block.opener ++ [session.opener] = none :: opened.map some

/-- A callback may run. -/
structure Working (before : List Io) (opened : List Bytes) (session : Session S) : Prop where
  history : History before opened session
  tidy : Tidy before opened session.link.channel

/-- The current block is answered and the session waits for a command. -/
structure Serving (before : List Io) (opened : List Bytes) (session : Session S) : Prop where
  history : History before opened session
  standing : Standing session.link.channel
  heard : Heard (session.link.channel.stream.isSome = true) opened session.link.channel
  answered : Answered before session.link.channel
  sound : ¬ session.current.Broken
  idle : session.link.machine.state = .ready ∨ Stuck session.link.machine

/-- The end of a run: only the last block may lack its response, and then the run
has failed; otherwise no command line was left out. -/
def Ended (failed : Prop) (session : Session S) : Prop :=
  ∃ before opened, History before opened session ∧ Heard False opened session.link.channel ∧
    (¬ failed →
      opened = throughBye (commandLines (splitAfter lf (arrived session.link.channel.trace)).1)) ∧
    (failed ∧ Said False before session.link.channel ∨
      Answered before session.link.channel ∧ ¬ session.current.Broken)

theorem Working.ended {failed : Prop} (h : Working before opened session) (hfailed : failed) :
    Ended failed session :=
  ⟨before, opened, h.history, h.tidy.loose.heard, fun hnot => absurd hfailed hnot,
    Or.inl ⟨hfailed, h.tidy.loose.said⟩⟩

theorem Ended.mono {failed failed' : Prop} (h : Ended failed session) (himp : failed → failed') :
    Ended failed' session := by
  obtain ⟨before, opened, hhistory, hheard, hall, hwrote⟩ := h
  refine ⟨before, opened, hhistory, hheard, fun hnot => hall (mt himp hnot), ?_⟩
  rcases hwrote with ⟨hfailed, hsaid⟩ | hanswered
  · exact Or.inl ⟨himp hfailed, hsaid⟩
  · exact Or.inr hanswered

theorem Serving.ended {failed : Prop} (h : Serving before opened session)
    (hall : ¬ failed →
      opened = throughBye (commandLines (splitAfter lf (arrived session.link.channel.trace)).1)) :
    Ended failed session :=
  ⟨before, opened, h.history, h.heard.weaken False.elim, hall, Or.inr ⟨h.answered, h.sound⟩⟩

theorem Serving.stopped {failed : Prop} (h : Serving before opened session) (hfailed : failed) :
    Ended failed session :=
  h.ended fun hnot => absurd hfailed hnot

/-- After `BYE` the session ends, whatever else has arrived. -/
theorem Serving.bye {failed : Prop} {line : Bytes} (h : Serving before (opened ++ [line]) session)
    (hgoing : ∀ line ∈ opened, isBye line = false) (hbye : isBye line = true) :
    Ended failed session := by
  apply h.ended
  intro _
  obtain ⟨rest, hrest⟩ := h.heard.first
  rw [← hrest, List.append_assoc, throughBye_append hgoing, List.singleton_append, throughBye, hbye]
  rfl

/-- The state in which a callback leaves its session for `finalize`. -/
def Returned (before : List Io) (opened : List Bytes)
    (o : Outcome ServerError (Except HandlerError Unit)) (session : Session S) : Prop :=
  Working before opened session ∧ ∀ result, o = .ok result → session.result = some result ∧
    (session.faulty = true → Blocked session.link.machine ∨
      ∃ e, result = .error e ∧ e.isFatal = true)

theorem settle_returned (h : Working before opened session) (hfaulty : session.faulty = false)
    (result : Except HandlerError Unit) :
    Action.Post (settle result) session (Returned before opened) := by
  refine ⟨⟨⟨h.history.past, h.history.traffic, h.history.mark, h.history.openers⟩, h.tidy⟩, ?_⟩
  intro result' hresult
  refine ⟨congrArg some (Outcome.ok.inj hresult), ?_⟩
  intro hbad
  exact absurd (hfaulty.symm.trans hbad) (by simp)

theorem callback_returned (h : Working before opened session) (limit : ℕ)
    (body : CommandContext S → Program S .context) :
    Action.Post (callback limit body) session (Returned before opened) := by
  have hsound := Program.run_sound limit (body ⟨session.state, session.authenticated⟩)
    session.link false ⟨h.tidy, fun hbad => absurd hbad (by simp)⟩
  unfold callback Action.Post
  simp only
  cases hresult : ((body ⟨session.state, session.authenticated⟩).run limit session.link false).result with
  | none =>
      refine ⟨⟨⟨h.history.past, h.history.traffic, h.history.mark, h.history.openers⟩, hsound.1⟩, ?_⟩
      intro result hok
      exact absurd hok (by simp)
  | some result =>
      refine ⟨⟨⟨h.history.past, h.history.traffic, h.history.mark, h.history.openers⟩, hsound.1⟩, ?_⟩
      intro result' hok
      refine ⟨congrArg some (Outcome.ok.inj hok), ?_⟩
      intro hfaulty
      exact Or.inl (hsound.2 hfaulty)

theorem help_returned (h : Working before opened session) (hfaulty : session.faulty = false)
    (entries : List (String × String)) :
    Action.Post (help entries) session (Returned before opened) := by
  obtain ⟨htidy, hfail⟩ := Link.help_post h.tidy entries
  unfold help Action.Post
  rcases hrun : Link.help entries session.link with ⟨o, link⟩
  rw [hrun] at htidy hfail
  have hhistory : ∀ result faulty, History before opened { session with
      link := link, result := result, faulty := faulty } := fun _ _ =>
    ⟨h.history.past, h.history.traffic, h.history.mark, h.history.openers⟩
  cases o with
  | ok u =>
      simp only [hrun]
      refine ⟨⟨hhistory _ _, htidy⟩, ?_⟩
      intro result hok
      refine ⟨congrArg some (Outcome.ok.inj hok), ?_⟩
      intro hbad
      exact absurd (hfaulty.symm.trans hbad) (by simp)
  | err e =>
      simp only [hrun]
      refine ⟨⟨hhistory _ _, htidy⟩, ?_⟩
      intro result hok
      refine ⟨congrArg some (Outcome.ok.inj hok), ?_⟩
      intro _
      rcases hfail (Outcome.failed_err e) with hdead | ⟨e', he⟩
      · exact Or.inl hdead.stuck.blocked
      · refine Or.inr ⟨e, (Outcome.ok.inj hok).symm, ?_⟩
        rw [Outcome.err.inj he]
        rfl
  | panic =>
      simp only [hrun]
      exact ⟨⟨hhistory _ _, htidy⟩, fun result hok => absurd hok (by simp)⟩
  | dropped =>
      simp only [hrun]
      exact ⟨⟨hhistory _ _, htidy⟩, fun result hok => absurd hok (by simp)⟩

theorem dispatch_returned (service : Service S) (command : Command)
    (h : Working before opened session) (hfaulty : session.faulty = false) :
    Action.Post (dispatch service command) session (Returned before opened) := by
  unfold dispatch
  cases route service.registry command.name with
  | nothing => exact settle_returned h hfaulty _
  | help =>
      -- the listing depends on the state, so the two actions agree at this session only
      have hhelp := help_returned h hfaulty (service.listing session.state)
      unfold Action.Post at hhelp ⊢
      exact hhelp
  | option =>
      cases OptionRequest.parse command.args with
      | ok request => exact callback_returned h _ _
      | err e => exact settle_returned h hfaulty _
      | panic => exact settle_returned h hfaulty _
      | dropped => exact settle_returned h hfaulty _
  | reset => exact callback_returned h _ _
  | handler handler => exact callback_returned h _ _
  | unknown => exact settle_returned h hfaulty _

/-- After `finalize` the session serves again, or it has ended. -/
theorem finalize_serving {result : Except HandlerError Unit} (greeting : Bool)
    (h : Returned before opened (.ok result) session) :
    Action.Post (finalize result greeting) session fun o session' =>
      (o = .ok () → Serving before opened session') ∧ (o.Failed → Ended o.Failed session') := by
  obtain ⟨hworking, hreturned⟩ := h
  obtain ⟨hresult, hfault⟩ := hreturned result rfl
  apply Action.Post.mono (finalize_post greeting hworking.tidy hresult hfault)
  intro o session' hfinal
  obtain ⟨link, rfl⟩ := hfinal.same
  have hhistory : History before opened { session with link := link } :=
    ⟨hworking.history.past, hworking.history.traffic, hworking.history.mark,
      hworking.history.openers⟩
  refine ⟨?_, fun ho => ⟨before, opened, hhistory, hfinal.heard, fun hnot => absurd ho hnot,
    hfinal.wrote⟩⟩
  rintro rfl
  obtain ⟨hstanding, hanswered, hheard, hidle⟩ := hfinal.done rfl
  refine ⟨hhistory, hstanding, hheard, hanswered, ?_, hidle⟩
  rcases hfinal.wrote with ⟨hbad, -⟩ | ⟨-, hsound⟩
  · exact absurd hbad (by simp)
  · exact hsound

/-! ## §5  Whole runs -/

theorem deadline_cases (duration : ℕ) (session : Session S) :
    ∃ horizon, deadline duration session = (.ok (), { session with horizon := horizon }) ∨
      deadline duration session = (.err .invalidOptions, { session with horizon := horizon }) := by
  unfold deadline
  by_cases hzero : duration = 0
  · exact ⟨session.horizon, Or.inr (by rw [if_pos hzero])⟩
  · refine ⟨session.horizon.tail, ?_⟩
    rw [if_neg hzero]
    by_cases hover : session.horizon.headD false = true
    · exact Or.inr (by rw [if_pos hover])
    · exact Or.inl (by rw [if_neg hover])

/-- A command line has been read and accepted. -/
structure Reading (before : List Io) (opened : List Bytes) (line : Bytes) (session : Session S) :
    Prop where
  history : History before opened session
  standing : Standing session.link.channel
  heard : Heard (session.link.channel.stream.isSome = true) (opened ++ [line]) session.link.channel
  answered : Answered before session.link.channel
  sound : ¬ session.current.Broken

/-- What an idle machine accepts: comments and empty lines, which do not move it,
and commands. -/
theorem receiveRequest_idle {machine : ServerMachine} {kind : RequestKind}
    (hidle : machine.state = .ready ∨ Stuck machine)
    (h : (machine.receiveRequest kind).1 = .ok ()) :
    (kind = .empty ∨ kind = .comment) ∧ (machine.receiveRequest kind).2 = machine ∨
      kind = .command := by
  rcases hidle with hready | hstuck
  · unfold ServerMachine.receiveRequest at h ⊢
    cases kind <;> simp_all
  · rw [hstuck.receiveRequest] at h
    exact absurd h (by simp)

theorem commandOf_command {line : Bytes} (h : requestKind line = .ok .command) :
    commandOf line = [line] := by
  simp [commandOf, isCommandLine, h]

/-- Reading up to the next command, by induction on the rounds. -/
theorem nextCommand_post (hgoing : ∀ line ∈ opened, isBye line = false) (fuel : ℕ) :
    ∀ {session : Session S}, Serving before opened session →
      Action.Post (nextCommand fuel) session fun o session' =>
        (∀ failed : Prop, failed ∨ o = .ok none → Ended failed session') ∧
        (session.link.channel.supply < fuel → o ≠ .panic) ∧
        ∀ line, o = .ok (some line) → Reading before opened line session' := by
  induction fuel with
  | zero =>
      intro session h
      rw [nextCommand]
      apply Action.Post.lift
      exact ⟨fun failed hstop => h.stopped (hstop.resolve_right (by simp)),
        fun hlt => absurd hlt (Nat.not_lt_zero _),
        fun _ hok => absurd hok (by simp)⟩
  | succ fuel ih =>
      intro session h
      have e := readLineOrEof_effect h.standing
      rcases hread : Channel.readLineOrEof session.link.channel with ⟨o, ch⟩
      rw [hread] at e
      obtain ⟨rs, htrace⟩ := e.trace
      obtain ⟨hheard, hline⟩ := e.heard h.heard
      have hanswered := h.answered.reads htrace
      -- whatever was read, the current block stays answered
      have hended : ∀ machine, ∀ failed : Prop, (¬ failed →
            opened = throughBye (commandLines (splitAfter lf (arrived ch.trace)).1)) →
          Ended failed { session with link := ⟨ch, machine⟩ } := fun machine failed hall =>
        ⟨before, opened, ⟨h.history.past, h.history.traffic, h.history.mark, h.history.openers⟩,
          hheard, hall, Or.inr ⟨hanswered, h.sound⟩⟩
      have hstopped : ∀ machine, ∀ {failed : Prop} {P : Prop}, failed ∨ P → ¬ P →
          Ended failed { session with link := ⟨ch, machine⟩ } := fun machine failed P hstop hnot =>
        hended machine failed fun h => absurd (hstop.resolve_right hnot) h
      have hrun := onLink_onChannel session hread
      rw [nextCommand]
      rcases o.ok_or_failed with ⟨found, rfl⟩ | ho
      swap
      · have hfailed := (ho.mapErr HandlerError.transport).mapErr ServerError.ofHandler
        have hpanic : (o.mapErr HandlerError.transport).mapErr ServerError.ofHandler ≠ .panic := by
          rw [Ne, Outcome.mapErr_eq_panic, Outcome.mapErr_eq_panic]
          exact e.safe
        apply Action.Post.bind_failed hrun hfailed
        exact ⟨fun _ hstop => hstopped _ hstop (hfailed.relabel _),
          fun _ => hfailed.relabel_ne_panic hpanic, fun _ hok => absurd hok (hfailed.relabel _)⟩
      · apply Action.Post.bind_ok hrun
        cases found with
        | none =>
            refine ⟨fun failed _ => hended _ failed fun _ => ?_, fun _ h => by simp at h,
              fun _ hok => absurd hok (by simp)⟩
            rw [← e.exhausted h.heard, ← List.append_nil opened, throughBye_append hgoing]
            rfl
        | some line =>
            obtain ⟨hheard', -⟩ := hline line rfl
            obtain ⟨-, -, -, -, -, -, hsupply⟩ := e.line line rfl
            simp only
            rcases requestKind_cases line with ⟨kind, hkind⟩ | ⟨error, hkind⟩
            swap
            · rw [hkind, Outcome.mapErr_err, Action.lift_err_bind]
              exact ⟨fun _ hstop => hstopped _ hstop (by simp), fun _ => by simp,
                fun _ hok => absurd hok (by simp)⟩
            rw [hkind, Outcome.mapErr_ok, Action.lift_ok_bind]
            rcases Link.receiveRequest_cases
                { session with link := ⟨ch, session.link.machine⟩ }.link kind with
              ⟨hanswer, hreceive⟩ | ⟨error, hreceive⟩
            swap
            · apply Action.Post.bind_failed (onLink_apply _ hreceive) (Outcome.failed_err _)
              exact ⟨fun _ hstop => hstopped _ hstop (by simp [Outcome.relabel]),
                fun _ => by simp [Outcome.relabel],
                fun _ hok => absurd hok (by simp [Outcome.relabel])⟩
            apply Action.Post.bind_ok (onLink_apply _ hreceive)
            rcases receiveRequest_idle h.idle hanswer with ⟨hskip, hsame⟩ | rfl
            · -- a comment or an empty line: read on
              rw [if_pos hskip, hsame]
              have hnone : commandOf line = [] := by
                apply ServerInquiry.commandOf_of_kind hkind
                rintro rfl
                simp at hskip
              rw [hnone, List.append_nil] at hheard'
              obtain ⟨hended', hpanic, hfound⟩ := ih
                (⟨⟨h.history.past, h.history.traffic, h.history.mark, h.history.openers⟩,
                  e.standing, hheard'.weaken fun _ => trivial, hanswered, h.sound, h.idle⟩ :
                  Serving before opened { session with link := ⟨ch, session.link.machine⟩ })
              refine ⟨hended', ?_, hfound⟩
              intro hlt
              apply hpanic
              exact Nat.lt_of_lt_of_le hsupply (Nat.le_of_lt_succ hlt)
            · rw [if_neg (by simp)]
              rw [commandOf_command hkind] at hheard'
              refine ⟨fun _ hstop => hstopped _ hstop (by simp), fun _ h => by simp at h, ?_⟩
              intro line' hok
              obtain rfl : line = line' := by simpa using hok
              exact ⟨⟨h.history.past, h.history.traffic, h.history.mark, h.history.openers⟩,
                e.standing, hheard'.weaken fun _ => trivial, hanswered, h.sound⟩

/-- A new block begins with clean books. -/
theorem Reading.working {line : Bytes} (h : Reading before opened line session) :
    Working session.link.channel.trace (opened ++ [line]) (openBlock line session) := by
  obtain ⟨since, htrace, hcomplete⟩ := h.answered
  have hcurrent : session.current.traffic = since := by
    show session.link.channel.trace.drop session.mark = since
    rw [htrace, h.history.mark, List.drop_left]
  refine ⟨⟨?_, ?_, rfl, ?_⟩, h.standing, ?_, h.heard⟩
  · intro block hblock
    rcases List.mem_append.mp hblock with hblock | hblock
    · exact h.history.past block hblock
    · rw [List.mem_singleton.mp hblock]
      exact ⟨by rw [hcurrent]; exact hcomplete, h.sound⟩
  · show ((session.past ++ [session.current]).map Block.traffic).flatten = _
    rw [List.map_append, List.flatten_append, h.history.traffic, htrace, List.map_singleton,
      List.flatten_singleton, hcurrent]
  · show (session.past ++ [session.current]).map Block.opener ++ [some line] = _
    have hopener : session.current.opener = session.opener := rfl
    rw [List.map_append, List.map_singleton, hopener, h.history.openers, List.map_append]
    rfl
  · exact ⟨[], [], [], by simp [openBlock], rfl, by simp, by simp, fun _ => rfl⟩

theorem answer_post (service : Service S) {line : Bytes} (h : Reading before opened line session) :
    Action.Post (answer service line) session fun o session' =>
      (∀ closing, o = .ok closing →
        closing = isBye line ∧ ∃ before, Serving before (opened ++ [line]) session') ∧
      (o.Failed → Ended o.Failed session') := by
  have hworking := h.working
  unfold answer
  apply Action.Post.bind (R := fun o s => o = .ok () ∧ s = openBlock line session) ⟨rfl, rfl⟩
  swap
  · rintro o s ho ⟨rfl, -⟩
    exact absurd ho (by simp)
  rintro u s ⟨-, rfl⟩
  have hstop : ∀ {α : Type} {o : Outcome ServerError α} {s : Session S}, o.Failed →
      Working session.link.channel.trace (opened ++ [line]) s →
      (∀ closing, (o.relabel : Outcome ServerError Bool) = .ok closing →
        closing = isBye line ∧ ∃ before, Serving before (opened ++ [line]) s) ∧
      ((o.relabel : Outcome ServerError Bool).Failed →
        Ended (o.relabel : Outcome ServerError Bool).Failed s) := fun ho hs =>
    ⟨fun closing hok => absurd hok (ho.relabel closing), fun h => hs.ended h⟩
  apply Action.Post.bind
    (R := fun o s => (Working session.link.channel.trace (opened ++ [line]) s ∧
      s.faulty = false) ∧ o = (Command.parse line).mapErr ServerError.protocol)
    (Action.Post.lift ⟨⟨hworking, rfl⟩, rfl⟩)
  swap
  · intro o s ho hs
    exact hstop ho hs.1.1
  rintro command s ⟨hs, hparse⟩
  have hbye : isBye line = decide (command.name = "BYE") := by
    rw [isBye, Outcome.mapErr_eq_ok.mp hparse.symm]
  obtain ⟨horizon, hdeadline⟩ := deadline_cases service.options.commandTimeout s
  have hs' : Working session.link.channel.trace (opened ++ [line])
      { s with horizon := horizon } :=
    ⟨⟨hs.1.history.past, hs.1.history.traffic, hs.1.history.mark, hs.1.history.openers⟩, hs.1.tidy⟩
  rcases hdeadline with hdeadline | hdeadline
  swap
  · apply Action.Post.bind_failed hdeadline (Outcome.failed_err _)
    exact hstop (α := Unit) (Outcome.failed_err _) hs'
  apply Action.Post.bind_ok hdeadline
  apply Action.Post.bind (dispatch_returned service command hs' hs.2)
  swap
  · intro o s' ho hreturned
    exact hstop ho hreturned.1
  intro result s' hreturned
  apply Action.Post.bind (finalize_serving false hreturned)
  · intro v s'' hserving
    apply Action.Post.pure
    refine ⟨fun closing hok => ⟨?_, _, hserving.1 rfl⟩, fun ho => absurd ho (by simp)⟩
    rw [hbye]
    exact (Outcome.ok.inj hok).symm
  · rintro o s'' ho ⟨-, hended⟩
    exact ⟨fun closing hok => absurd hok (ho.relabel closing),
      fun _ => (hended ho).mono fun _ => ho.relabel⟩

/-- The loop of `drive`, by induction on its rounds. -/
theorem serve_post (service : Service S) (rounds : ℕ) :
    ∀ {before : List Io} {opened : List Bytes} {session : Session S},
      Serving before opened session → (∀ line ∈ opened, isBye line = false) →
      Action.Post (serve service rounds) session fun o session' => Ended o.Failed session' := by
  induction rounds with
  | zero =>
      intro before opened session h _
      rw [serve]
      exact Action.Post.lift (h.stopped (by simp))
  | succ rounds ih =>
      intro before opened session h hgoing
      rw [serve]
      obtain ⟨horizon, hdeadline⟩ := deadline_cases service.options.idleTimeout session
      have h' : Serving before opened { session with horizon := horizon } :=
        ⟨⟨h.history.past, h.history.traffic, h.history.mark, h.history.openers⟩, h.standing,
          h.heard, h.answered, h.sound, h.idle⟩
      rcases hdeadline with hdeadline | hdeadline
      swap
      · apply Action.Post.bind_failed hdeadline (Outcome.failed_err _)
        exact h'.stopped (by simp [Outcome.relabel])
      apply Action.Post.bind_ok hdeadline
      apply Action.Post.get_bind
      apply Action.Post.bind (nextCommand_post hgoing _ h')
      · rintro found s ⟨hended, -, hreading⟩
        cases found with
        | none => exact Action.Post.pure (hended _ (Or.inr rfl))
        | some line =>
            apply Action.Post.bind (answer_post service (hreading line rfl))
            · rintro closing s' ⟨hserving, -⟩
              obtain ⟨hbye, before', hserving'⟩ := hserving closing rfl
              by_cases hclosing : closing = true
              · rw [if_pos hclosing]
                exact Action.Post.pure (hserving'.bye hgoing (hbye.symm.trans hclosing))
              · rw [if_neg hclosing]
                apply ih hserving'
                intro l hl
                rcases List.mem_append.mp hl with hl | hl
                · exact hgoing l hl
                · rw [List.mem_singleton.mp hl, ← hbye]
                  exact Bool.not_eq_true _ ▸ hclosing
            · rintro o s' ho ⟨-, hended'⟩
              exact (hended' ho).mono fun _ => ho.relabel
      · rintro o s ho ⟨hended, -, -⟩
        exact hended _ (Or.inl ho.relabel)

/-- A session that has not started. -/
theorem working_new (stream : Stream) (clock horizon : List Bool) (state : S) :
    Working [] [] (new stream clock horizon state) := by
  refine ⟨⟨by simp [new], rfl, rfl, rfl⟩, standing_new stream clock, ?_, ?_⟩
  · exact ⟨[], [], [], rfl, rfl, by simp, by simp, fun _ => rfl⟩
  · refine ⟨[], [], by simp, rfl, by simp, fun _ => ⟨?_, rfl⟩⟩
    show [] = (Channel.new stream clock).unreadBytes
    rw [new_eq_standing, unreadBytes_standing (Nat.zero_le _)]

theorem drive_post (service : Service S) (rounds : ℕ) (h : Working before [] session) :
    Action.Post (drive service rounds) session fun o session' => Ended o.Failed session' := by
  unfold drive
  obtain ⟨horizon, hdeadline⟩ := deadline_cases service.options.greetingTimeout session
  have h' : Working before [] { session with horizon := horizon } :=
    ⟨⟨h.history.past, h.history.traffic, h.history.mark, h.history.openers⟩, h.tidy⟩
  rcases hdeadline with hdeadline | hdeadline
  swap
  · apply Action.Post.bind_failed hdeadline (Outcome.failed_err _)
    exact h'.ended (Outcome.failed_err _)
  apply Action.Post.bind_ok hdeadline
  apply Action.Post.bind (callback_returned h' _ _)
  swap
  · intro o s ho hreturned
    exact hreturned.1.ended ho.relabel
  intro result s hreturned
  apply Action.Post.bind (finalize_serving true hreturned)
  swap
  · rintro o s' ho ⟨-, hended⟩
    exact (hended ho).mono fun _ => ho.relabel
  rintro u s' ⟨hserving, -⟩
  have hserving' := hserving rfl
  apply Action.Post.bind (R := fun o t => o = .ok () ∧ t = { s' with authenticated := true })
    ⟨rfl, rfl⟩
  · rintro v t ⟨-, rfl⟩
    refine serve_post service rounds (?_ : Serving before [] _) (by simp)
    exact ⟨⟨hserving'.history.past, hserving'.history.traffic, hserving'.history.mark,
      hserving'.history.openers⟩, hserving'.standing, hserving'.heard, hserving'.answered,
      hserving'.sound, hserving'.idle⟩
  · rintro o t ho ⟨rfl, -⟩
    exact absurd ho (by simp)

theorem validate_post (options : ServerOptions) (session : Session S) :
    Action.Post (validate options) session fun o session' =>
      (o.Failed → o = .err .invalidOptions) ∧
      ∃ horizon, session' = { session with horizon := horizon } := by
  unfold validate
  by_cases hbad : options.maxInquiryBytes = 0 ∨ options.maxSessions = 0 ∨
      options.maxSessions > maxPermits
  · rw [if_pos hbad]
    exact Action.Post.lift ⟨fun _ => rfl, session.horizon, rfl⟩
  · rw [if_neg hbad]
    apply Action.Post.forEach (I := fun s => ∃ horizon, s = { session with horizon := horizon })
      ⟨session.horizon, rfl⟩
    · rintro duration - s ⟨horizon, rfl⟩
      obtain ⟨horizon', hdeadline⟩ :=
        deadline_cases duration { session with horizon := horizon }
      apply Action.Post.intro
      intro o s' hrun
      rcases hdeadline with hdeadline | hdeadline
      · rw [hdeadline] at hrun
        obtain ⟨rfl, rfl⟩ := Prod.mk.inj hrun
        exact ⟨fun _ => ⟨horizon', rfl⟩, fun ho => absurd ho (by simp)⟩
      · rw [hdeadline] at hrun
        obtain ⟨rfl, rfl⟩ := Prod.mk.inj hrun
        exact ⟨fun _ => ⟨horizon', rfl⟩, fun _ => ⟨fun _ => rfl, horizon', rfl⟩⟩
    · rintro s hs
      exact ⟨fun ho => absurd ho (by simp), hs⟩

/-- The close hook cannot turn a failure into a success, and writes nothing. -/
theorem closing_post (service : Service S) (result : Outcome ServerError Unit)
    (session : Session S) :
    Action.Post (closing service result) session fun o session' =>
      (result.Failed → o.Failed) ∧
      ∃ horizon state, session' = { session with horizon := horizon, state := state } := by
  unfold closing
  obtain ⟨horizon, hdeadline | hdeadline⟩ :=
    deadline_cases service.options.shutdownTimeout session
  swap
  · apply Action.Post.bind_failed hdeadline (Outcome.failed_err _)
    exact ⟨fun _ => Outcome.failed_err _, horizon, session.state, rfl⟩
  apply Action.Post.bind_ok hdeadline
  apply Action.Post.get_bind
  refine ⟨?_, horizon, _, rfl⟩
  intro hfailed
  cases result with
  | ok u => exact absurd hfailed (by simp)
  | err e => exact hfailed
  | panic => exact hfailed
  | dropped => exact hfailed

theorem run_post (service : Service S) (rounds : ℕ) (stream : Stream) (clock horizon : List Bool)
    (state : S) :
    Action.Post (run service rounds) (new stream clock horizon state) fun o session' =>
      Ended o.Failed session' := by
  unfold run
  have hwork : ∀ horizon', Working [] [] { new stream clock horizon state with horizon := horizon' } :=
    fun horizon' => working_new stream clock horizon' state
  apply Action.Post.bind (validate_post service.options _)
  swap
  · rintro o s ho ⟨-, horizon', rfl⟩
    exact (hwork horizon').ended ho.relabel
  rintro u s ⟨-, horizon', rfl⟩
  have hdrive := drive_post service rounds (hwork horizon')
  apply Action.Post.intro
  intro o s' hrun
  rcases hd : drive service rounds { new stream clock horizon state with horizon := horizon' } with
    ⟨result, s⟩
  have hended : Ended result.Failed s := hdrive.elim hd
  -- closing the channel leaves the record as it is
  have hclosed : ∀ {t : Session S}, Action.Post (closing service result)
      { s with link := ⟨s.link.channel.close, s.link.machine.close⟩ } (fun o' t' =>
        (o', t') = (o, t) → Ended o.Failed t) := by
    intro t
    apply Action.Post.mono (closing_post service result _)
    rintro o' t' ⟨hfailed, horizon'', state', rfl⟩ heq
    obtain ⟨rfl, rfl⟩ := Prod.mk.inj heq
    obtain ⟨before, opened, hhistory, hheard, hall, hwrote⟩ := hended
    refine ⟨before, opened, ⟨hhistory.past, hhistory.traffic, hhistory.mark, hhistory.openers⟩,
      hheard.same rfl, fun hnot => hall (mt hfailed hnot), ?_⟩
    rcases hwrote with ⟨hfail, hsaid⟩ | hanswered
    · exact Or.inl ⟨hfailed hfail, hsaid⟩
    · exact Or.inr hanswered
  simp only [hd] at hrun
  cases result with
  | ok v => exact (hclosed.elim hrun) rfl
  | err e => exact (hclosed.elim hrun) rfl
  | panic =>
      obtain ⟨rfl, rfl⟩ := Prod.mk.inj hrun
      exact hended
  | dropped =>
      obtain ⟨rfl, rfl⟩ := Prod.mk.inj hrun
      exact hended

/-! ## §6  The blocks of a run -/

/-- The wire discipline of a finished run that ended in `o`. -/
structure Disciplined (session : Session S) (o : Outcome ServerError Unit) : Prop where
  /-- The complete lines written are those of the blocks, one after the other. -/
  split : ∃ tail, splitAfter lf (written session.link.channel.trace) =
    ((session.blocks.map Block.lines).flatten, tail)
  /-- The first block is the greeting, and the others answer the command lines of
  the stream in their order: after a success all of them up to `BYE` or the end of
  the stream. -/
  openers : ∃ commands, session.blocks.map Block.opener = none :: commands.map some ∧
    commands <+: commandLines (splitAfter lf (arrived session.link.channel.trace)).1 ∧
    (o = .ok () →
      commands = throughBye (commandLines (splitAfter lf (arrived session.link.channel.trace)).1))
  /-- A final response is the last line of its block. -/
  final_last : ∀ block ∈ session.blocks, ∀ line ∈ block.lines.dropLast, isFinalLine line = false
  /-- Every block but the last has its final response. -/
  answered : ∀ block ∈ session.blocks.dropLast,
    ∃ line, block.lines.getLast? = some line ∧ isFinalLine line = true
  /-- A broken block has none; it is the last one, and the run has failed. -/
  broken : ∀ before block after, session.blocks = before ++ block :: after → block.Broken →
    after = [] ∧ (∀ line ∈ block.lines, isFinalLine line = false) ∧ o.Failed

/-- Where the current block begins, its traffic begins. -/
theorem History.since (h : History before opened session) {since : List Io}
    (htrace : session.link.channel.trace = before ++ since) : session.current.traffic = since := by
  show session.link.channel.trace.drop session.mark = since
  rw [htrace, h.mark, List.drop_left]

/-- Torn or not, lines that are not final are the lines of their block. -/
theorem lines_not_final {since : List Io} {lines : List Bytes} {rest : Bytes} {block : Block}
    (htraffic : block.traffic = since) (hwritten : written since = lines.flatten ++ rest)
    (hlines : ∀ line ∈ lines, Progress line) (hrest : lf ∉ rest) :
    ∀ line ∈ block.lines, isFinalLine line = false := by
  have hterm : ∀ seg ∈ lines, Terminated lf seg := fun seg hseg => (hlines seg hseg).1
  have hcut : splitAfter lf (written block.traffic) = (lines, rest) := by
    rw [htraffic, hwritten, splitAfter_flatten rest hterm,
      splitAfter_of_none (firstSegment_eq_none.mpr hrest), List.append_nil]
  intro line hline
  rw [Block.lines, hcut] at hline
  exact (hlines line hline).2

/-- The current block of a run that has ended: it is complete, or the run has failed
without a final response. -/
theorem Ended.current {o : Outcome ServerError Unit} (hhistory : History before opened session)
    (h : o.Failed ∧ Said False before session.link.channel ∨
      Answered before session.link.channel ∧ ¬ session.current.Broken) :
    ∃ since, session.link.channel.trace = before ++ since ∧ session.current.traffic = since ∧
      ((o.Failed ∧ ∀ line ∈ session.current.lines, isFinalLine line = false) ∨
        Complete session.current.traffic ∧ ¬ session.current.Broken) := by
  rcases h with ⟨hfailed, since, lines, rest, htrace, hwritten, hlines, hrest, -⟩ |
    ⟨⟨since, htrace, hcomplete⟩, hsound⟩
  · have htraffic := hhistory.since htrace
    exact ⟨since, htrace, htraffic, Or.inl ⟨hfailed, lines_not_final htraffic hwritten hlines hrest⟩⟩
  · have htraffic := hhistory.since htrace
    refine ⟨since, htrace, htraffic, Or.inr ⟨?_, hsound⟩⟩
    rw [htraffic]
    exact hcomplete

/-- A block is the current one, or one of the past. -/
theorem blocks_cases {before' after : List Block} {block : Block}
    (h : session.blocks = before' ++ block :: after) :
    (after = [] ∧ block = session.current) ∨ block ∈ session.past := by
  rcases List.eq_nil_or_concat after with rfl | ⟨after', last, rfl⟩
  · have hboth := congrArg List.getLast? h
    rw [blocks] at hboth
    exact Or.inl ⟨rfl, by simpa using hboth.symm⟩
  · have hboth := congrArg List.dropLast h
    have hassoc : before' ++ block :: after'.concat last = (before' ++ block :: after') ++ [last] := by
      simp
    rw [blocks, List.dropLast_concat, hassoc, List.dropLast_concat] at hboth
    rw [hboth]
    exact Or.inr (by simp)

theorem Ended.disciplined {o : Outcome ServerError Unit} (h : Ended o.Failed session) :
    Disciplined session o := by
  obtain ⟨before, opened, hhistory, hheard, hall, hwrote⟩ := h
  have hpast : ∀ block ∈ session.past, Complete block.traffic := fun b hb => (hhistory.past b hb).1
  obtain ⟨hbefore, hsegs⟩ := written_blocks hpast
  rw [hhistory.traffic] at hbefore
  obtain ⟨since, htrace, htraffic, hlast⟩ := Ended.current hhistory hwrote
  refine ⟨?_, ?_, ?_, ?_, ?_⟩
  · refine ⟨(splitAfter lf (written since)).2, ?_⟩
    rw [htrace, written_append, hbefore, splitAfter_flatten _ hsegs, blocks, List.map_append,
      List.flatten_append, List.map_singleton, List.flatten_singleton, Block.lines, htraffic]
  · refine ⟨opened, ?_, hheard.first, ?_⟩
    · rw [blocks, List.map_append, List.map_singleton]
      exact hhistory.openers
    · rintro rfl
      exact hall (by simp)
  · intro block hblock line hline
    rcases List.mem_append.mp hblock with hblock | hblock
    · exact (hpast block hblock).final_last.1 line hline
    · rw [List.mem_singleton.mp hblock] at hline
      rcases hlast with ⟨-, hnone⟩ | ⟨hcomplete, -⟩
      · exact hnone line (List.mem_of_mem_dropLast hline)
      · exact hcomplete.final_last.1 line hline
  · intro block hblock
    rw [blocks, List.dropLast_concat] at hblock
    exact (hpast block hblock).final_last.2
  · intro before' block after hsplit hbroken
    rcases blocks_cases hsplit with ⟨rfl, rfl⟩ | hmem
    · rcases hlast with ⟨hfailed, hnone⟩ | ⟨-, hsound⟩
      · exact ⟨rfl, hnone, hfailed⟩
      · exact absurd hbroken hsound
    · exact absurd hbroken (hhistory.past block hmem).2

/-- **Wire discipline.** For every stream, however it is cut, delayed or broken,
for every registry and hook set and for every behaviour of their callbacks, the
lines that a session writes form one block for the greeting and one for each
command line, in their order. A block has at most one final response, as its
last line, and only the last block may lack it. A block in which an operation
failed or was dropped, in which an inquiry was not finished, or whose callback
returned an error without a response gets none: the run fails and nothing
follows. -/
theorem run_disciplined (service : Service S) (rounds : ℕ) (stream : Stream)
    (clock horizon : List Bool) (state : S) :
    Disciplined (run service rounds (new stream clock horizon state)).2
      (run service rounds (new stream clock horizon state)).1 :=
  Ended.disciplined (run_post service rounds stream clock horizon state)

end Session

end Assuan
