import Assuan.Server.Classification
import Assuan.Server.Ledger
import Assuan.Server.Packing

/-!
# What the context operations do

Whatever the peer and the clock do, an operation of a callback keeps the books
of the session, and one that fails or is dropped leaves the session dead. An
inquiry keeps the machine blocked until `finish` succeeds.
-/

namespace Assuan

open Channel LineBuffer

/-! ## §1  The machine -/

/-- No final response can be sent. -/
def Blocked (machine : ServerMachine) : Prop :=
  machine.state = .inquiry ∨ machine.state = .invalid ∨ machine.state = .closed

/-- The machine refuses everything. -/
def Stuck (machine : ServerMachine) : Prop := machine.state = .invalid ∨ machine.state = .closed

section Machine

variable {machine : ServerMachine}

theorem Stuck.blocked (h : Stuck machine) : Blocked machine := Or.inr h

theorem stuck_invalidate (machine : ServerMachine) : Stuck machine.invalidate := by
  unfold Stuck ServerMachine.invalidate
  by_cases h : machine.state = .closed
  · simp [h]
  · simp [h]

theorem Stuck.sendResponse (h : Stuck machine) (kind : LineKind) :
    machine.sendResponse kind = (.error .unusable, machine) := by
  unfold ServerMachine.sendResponse
  rcases h with h | h <;> simp [h]

theorem Stuck.receiveRequest (h : Stuck machine) (kind : RequestKind) :
    machine.receiveRequest kind = (.error .unusable, machine) := by
  unfold ServerMachine.receiveRequest
  rcases h with h | h <;> simp [h]

theorem Blocked.sendResponse (h : Blocked machine) (kind : LineKind) :
    Blocked (machine.sendResponse kind).2 := by
  rcases h with h | h
  · unfold ServerMachine.sendResponse
    cases kind <;> simp only [h]
    case status => exact Or.inl h
    case comment => exact Or.inl h
    case empty => exact Or.inl h
    all_goals exact (stuck_invalidate machine).blocked
  · rw [Stuck.sendResponse h]
    exact Or.inr h

/-- An inquiry opens only where none is open, and blocks the machine. -/
theorem sendResponse_inquire (h : (machine.sendResponse .inquire).1 = .ok ()) :
    ¬ Blocked machine ∧ (machine.sendResponse .inquire).2.state = .inquiry := by
  unfold ServerMachine.sendResponse at h ⊢
  unfold Blocked
  cases hstate : machine.state <;> simp_all

/-- Inside an inquiry nothing but a terminator moves the machine. -/
theorem Blocked.receiveRequest (h : Blocked machine) {kind : RequestKind} (hend : kind ≠ .end_)
    (hcan : kind ≠ .can) (hok : (machine.receiveRequest kind).1 = .ok ()) :
    (machine.receiveRequest kind).2 = machine := by
  rcases h with h | h
  · unfold ServerMachine.receiveRequest at hok ⊢
    cases kind <;> simp_all
  · rw [Stuck.receiveRequest h]

end Machine

/-! ## §2  Operations on a link -/

namespace Link

/-- The session cannot be used any more: its stream is gone and the machine
refuses everything. -/
structure Dead (link : Link) : Prop where
  stuck : Stuck link.machine
  closed : link.channel.stream = none

theorem dead_abandon (link : Link) : link.abandon.Dead := ⟨stuck_invalidate _, rfl⟩

section Operations

variable {before : List Io} {opened : List Bytes} {link : Link} {α : Type}

/-- The books under an `IoOperation`: loose while it runs, tidy when it is done. -/
def Under (before : List Io) (opened : List Bytes) (o : Outcome HandlerError α) (link : Link) : Prop :=
  Loose before opened link.channel ∧ (¬ o.Failed → Tidy before opened link.channel)

/-- The books after it: tidy, and the session is dead if it did not complete. -/
def After (before : List Io) (opened : List Bytes) (o : Outcome HandlerError α) (link : Link) : Prop :=
  Tidy before opened link.channel ∧ (o.Failed → link.Dead)

theorem ioOperation_post {x : Action Link HandlerError α} {P : Outcome HandlerError α → Link → Prop}
    (h : Action.Post x link fun o link' => Under before opened o link' ∧ P o link') :
    Action.Post (ioOperation x) link fun o link' =>
      After before opened o link' ∧ (¬ o.Failed → P o link') := by
  apply Action.Post.onFailure h
  · intro a link' hunder
    exact ⟨⟨hunder.1.2 (by simp), by simp⟩, fun _ => hunder.2⟩
  · intro o link' ho hunder
    exact ⟨⟨hunder.1.1.close, fun _ => dead_abandon link'⟩, fun h => absurd ho h⟩

theorem writeLine_post (h : Tidy before opened link.channel) {line : Bytes} (hline : Progress line) :
    Action.Post (writeLine line) link fun o link' =>
      Under before opened o link' ∧ link'.machine = link.machine := by
  apply Action.Post.mapErr
  apply Action.Post.zoom
  apply Action.Post.mono (h.writeLine hline)
  rintro o ch ⟨hloose, htidy⟩
  refine ⟨⟨hloose, ?_⟩, rfl⟩
  intro hok
  apply htidy
  rw [Outcome.failed_mapErr] at hok
  obtain ⟨a, rfl⟩ := Outcome.ok_of_not_failed hok
  rfl

/-- Asking the machine: the channel stays, and success means that it agreed. -/
theorem sendResponse_post (h : Tidy before opened link.channel) (kind : LineKind) :
    Action.Post (sendResponse kind) link fun o link' =>
      Under before opened o link' ∧ link'.channel = link.channel ∧
      link'.machine = (link.machine.sendResponse kind).2 ∧
      (¬ o.Failed → (link.machine.sendResponse kind).1 = .ok ()) := by
  refine ⟨⟨h.loose, fun _ => h⟩, rfl, rfl, ?_⟩
  intro hok
  rcases sendResponse_cases link kind with ⟨hanswer, -⟩ | ⟨e, hrun⟩
  · exact hanswer
  · rw [hrun] at hok
    exact absurd (Outcome.failed_err _) hok

/-- Sending one line that is not final. -/
theorem sendLine_post (h : Tidy before opened link.channel) {line : ServerLine}
    (hok : line.kind ≠ .ok) (herr : line.kind ≠ .err) :
    Action.Post (sendLine line) link fun o link' =>
      Under before opened o link' ∧ (Blocked link.machine → Blocked link'.machine) ∧
      (¬ o.Failed → (link.machine.sendResponse line.kind).1 = .ok () ∧
        link'.machine = (link.machine.sendResponse line.kind).2) := by
  have hencode := encoded_cases (encodeResponse_writesLine line (Buffer.zero _))
  rcases hencode with ⟨hbytes, hv, hc, -⟩ | ⟨⟨e, hbytes⟩, -⟩
  · unfold sendLine
    rw [hbytes, Outcome.mapErr_ok, Action.lift_ok_bind]
    apply Action.Post.bind (sendResponse_post h line.kind)
    · rintro u link' ⟨⟨-, htidy⟩, hch, hmachine, hanswer⟩
      have hwrite := writeLine_post (htidy (by simp)) (progress_response hv hc hok herr)
      apply Action.Post.mono hwrite
      rintro o link'' ⟨hunder, hsame⟩
      refine ⟨hunder, ?_, ?_⟩
      · intro hblocked
        rw [hsame, hmachine]
        exact hblocked.sendResponse line.kind
      · intro _
        exact ⟨hanswer (by simp), by rw [hsame, hmachine]⟩
    · rintro o link' ho ⟨⟨hloose, -⟩, -, hmachine, -⟩
      refine ⟨⟨hloose, fun h => absurd ho.relabel h⟩, ?_, fun h => absurd ho.relabel h⟩
      intro hblocked
      rw [hmachine]
      exact hblocked.sendResponse line.kind
  · unfold sendLine
    rw [hbytes, Outcome.mapErr_err, Action.lift_err_bind]
    apply Action.Post.lift
    exact ⟨⟨h.loose, fun h => absurd (Outcome.failed_err _) h⟩, id,
      fun h => absurd (Outcome.failed_err _) h⟩

/-- What a callback finds after an operation: the books are in order, a failure
has killed the session, and a blocked machine is still blocked. -/
structure Operated (before : List Io) (opened : List Bytes) (link : Link) (o : Outcome HandlerError α)
    (link' : Link) : Prop where
  tidy : Tidy before opened link'.channel
  dead : o.Failed → link'.Dead
  blocked : Blocked link.machine → Blocked link'.machine

theorem ioOperation_operated {x : Action Link HandlerError α}
    (h : Action.Post x link fun o link' =>
      Under before opened o link' ∧ (Blocked link.machine → Blocked link'.machine)) :
    Action.Post (ioOperation x) link (Operated before opened link) := by
  apply Action.Post.mono (ioOperation_post h)
  rintro o link' ⟨⟨htidy, hdead⟩, hblocked⟩
  refine ⟨htidy, hdead, ?_⟩
  intro hlink
  rcases o.ok_or_failed with ⟨a, rfl⟩ | ho
  · exact hblocked (by simp) hlink
  · exact (hdead ho).stuck.blocked

/-- An operation that sends one line. -/
theorem sendLine_operated (h : Tidy before opened link.channel) {line : ServerLine}
    (hok : line.kind ≠ .ok) (herr : line.kind ≠ .err) :
    Action.Post (ioOperation (sendLine line)) link (Operated before opened link) := by
  apply ioOperation_operated
  apply Action.Post.mono (sendLine_post h hok herr)
  rintro o link' ⟨hunder, hblocked, -⟩
  exact ⟨hunder, hblocked⟩

theorem sendStatus_operated (h : Tidy before opened link.channel) (keyword : String) (args : Bytes) :
    Action.Post (sendStatus keyword args) link (Operated before opened link) :=
  sendLine_operated h (by simp [ServerLine.kind]) (by simp [ServerLine.kind])

theorem sendData_operated (h : Tidy before opened link.channel) (data : Bytes) :
    Action.Post (sendData data) link (Operated before opened link) := by
  apply ioOperation_operated
  rw [streamData_eq]
  apply Action.Post.bind (sendResponse_post h .data)
  · rintro u link' ⟨⟨-, htidy⟩, -, hmachine, -⟩
    -- the invariant of the loop: tidy books, and the machine as `send_response` left it
    apply Action.Post.forEach
      (I := fun l => Tidy before opened l.channel ∧ l.machine = link'.machine)
      ⟨htidy (by simp), rfl⟩
    · intro line hline l hl
      obtain ⟨piece, -, rfl⟩ := List.mem_map.mp hline
      apply Action.Post.mono (writeLine_post hl.1 (progress_dataLine piece))
      rintro o l' ⟨⟨hloose, htidy'⟩, hsame⟩
      constructor
      · rintro rfl
        exact ⟨htidy' (by simp), hsame.trans hl.2⟩
      · intro ho
        refine ⟨⟨hloose, fun h => absurd ho h⟩, ?_⟩
        intro hblocked
        rw [hsame, hl.2, hmachine]
        exact hblocked.sendResponse .data
    · rintro l ⟨hl, hsame⟩
      refine ⟨⟨hl.loose, fun _ => hl⟩, ?_⟩
      intro hblocked
      rw [hsame, hmachine]
      exact hblocked.sendResponse .data
  · rintro o link' ho ⟨⟨hloose, -⟩, -, hmachine, -⟩
    refine ⟨⟨hloose, fun h => absurd ho.relabel h⟩, ?_⟩
    intro hblocked
    rw [hmachine]
    exact hblocked.sendResponse .data

/-- Opening an inquiry needs a machine that is not blocked, and blocks it. -/
theorem begin_operated (h : Tidy before opened link.channel) (keyword : String) (args : Bytes) :
    Action.Post (ServerInquiry.begin keyword args) link fun o link' =>
      Operated before opened link o link' ∧
      (¬ o.Failed → ¬ Blocked link.machine ∧ link'.machine.state = .inquiry) := by
  have hsend : Action.Post (sendLine (.inquire keyword args)) link _ :=
    sendLine_post h (by simp [ServerLine.kind]) (by simp [ServerLine.kind])
  apply Action.Post.mono (ioOperation_post hsend)
  rintro o link' ⟨⟨htidy, hdead⟩, hrest⟩
  rcases o.ok_or_failed with ⟨a, rfl⟩ | ho
  · obtain ⟨hblocked, hanswer⟩ := hrest (by simp)
    refine ⟨⟨htidy, hdead, hblocked⟩, fun _ => ?_⟩
    obtain ⟨hok, hmachine⟩ := hanswer (by simp)
    rw [hmachine]
    exact sendResponse_inquire hok
  · exact ⟨⟨htidy, hdead, fun _ => (hdead ho).stuck.blocked⟩, fun h => absurd ho h⟩

/-! ### HELP -/

theorem commandNew_cases (name : String) (args : Bytes) :
    (∃ command, Command.new name args = .ok command) ∨ ∃ e, Command.new name args = .err e := by
  unfold Command.new
  split
  · split
    · exact Or.inl ⟨_, rfl⟩
    · exact Or.inr ⟨_, rfl⟩
  · exact Or.inr ⟨_, rfl⟩

theorem comment_after (h : Tidy before opened link.channel) (text : Bytes) :
    Action.Post (comment text) link (After before opened) := by
  have hbody : Action.Post (do
      let body ← Action.lift (Outcome.index (commentBody text))
      sendLine (.comment body)) link fun o link' => Under before opened o link' ∧ True := by
    cases commentBody text with
    | none => exact ⟨⟨h.loose, fun h => absurd Outcome.failed_panic h⟩, trivial⟩
    | some body =>
        rw [Outcome.index_some, Action.lift_ok_bind]
        apply Action.Post.mono (sendLine_post h (by simp [ServerLine.kind]) (by simp [ServerLine.kind]))
        rintro o link' ⟨hunder, -⟩
        exact ⟨hunder, trivial⟩
  apply Action.Post.mono (ioOperation_post hbody)
  rintro o link' ⟨hafter, -⟩
  exact hafter

theorem comments_after (h : Tidy before opened link.channel) (texts : List Bytes) :
    Action.Post (Action.forEach comment texts) link (After before opened) := by
  apply Action.Post.forEach (I := fun l => Tidy before opened l.channel) h
  · intro text _ l hl
    apply Action.Post.mono (comment_after hl text)
    rintro o l' ⟨htidy, hdead⟩
    exact ⟨fun _ => htidy, fun ho => ⟨htidy, fun _ => hdead ho⟩⟩
  · intro l hl
    exact ⟨hl, fun hfail => absurd hfail (by simp)⟩

/-- `HELP` fails by an operation that fails, or by an entry that is not a command
line. -/
theorem help_post (h : Tidy before opened link.channel) (entries : List (String × String)) :
    Action.Post (help entries) link fun o link' => Tidy before opened link'.channel ∧
      (o.Failed → link'.Dead ∨ ∃ e, o = .err (.protocol e)) := by
  apply Action.Post.forEach (I := fun l => Tidy before opened l.channel) h
  · rintro ⟨name, description⟩ - l hl
    have hentry : Action.Post (entry name description) l fun o l' =>
        Tidy before opened l'.channel ∧ (o.Failed → l'.Dead ∨ ∃ e, o = .err (.protocol e)) := by
      rw [entry_eq]
      rcases commandNew_cases name (asBytes description) with ⟨command, hnew⟩ | ⟨e, hnew⟩
      · rw [hnew, Outcome.mapErr_ok, Action.lift_ok_bind]
        apply Action.Post.mono (comments_after hl _)
        rintro o l' ⟨htidy, hdead⟩
        exact ⟨htidy, fun ho => Or.inl (hdead ho)⟩
      · rw [hnew, Outcome.mapErr_err, Action.lift_err_bind]
        exact Action.Post.lift ⟨hl, fun _ => Or.inr ⟨e, rfl⟩⟩
    apply Action.Post.mono hentry
    rintro o l' ⟨htidy, hfail⟩
    exact ⟨fun _ => htidy, fun ho => ⟨htidy, fun _ => hfail ho⟩⟩
  · intro l hl
    exact ⟨hl, fun hfail => absurd hfail (by simp)⟩

end Operations

end Link

/-! ## §3  Reading an inquiry -/

namespace ServerInquiry

section Inquiries

variable {before : List Io} {opened : List Bytes} {link : Link} {inquiry : ServerInquiry}

theorem readLine_post (h : Tidy before opened link.channel) :
    Action.Post Link.readLine link fun o link' =>
      Loose before opened link'.channel ∧ link'.machine = link.machine ∧ o ≠ .panic ∧
      ∀ line, o = .ok line → Tidy before (opened ++ commandOf line) link'.channel ∧
        Holds link'.channel line ∧ link'.channel.supply < link.channel.supply := by
  apply Action.Post.mapErr
  apply Action.Post.zoom
  apply Action.Post.bind (R := fun o ch => ReadEffect link.channel o ch)
    (readLineOrEof_effect h.standing)
  · intro found ch e
    obtain ⟨hloose, hline⟩ := e.heard h.heard
    obtain ⟨rs, htrace⟩ := e.trace
    have hsaid : Said False before ch := h.loose.said.reads htrace
    apply Action.Post.lift
    refine ⟨⟨hsaid, hloose⟩, rfl, ?_, ?_⟩
    · cases found <;> simp [Outcome.mapErr]
    · intro line hok
      have hfound : found = some line := by
        cases found with
        | none => exact absurd hok (by simp)
        | some l => simpa using hok
      subst hfound
      obtain ⟨hheard, hholds⟩ := hline line rfl
      obtain ⟨-, -, -, -, -, -, hsupply⟩ := e.line line rfl
      refine ⟨⟨e.standing, ?_, hheard.weaken fun _ => trivial⟩, hholds, hsupply⟩
      apply Said.weaken (h.said.reads htrace)
      intro hopen
      rw [← e.stream]
      exact hopen
  · intro o ch ho e
    obtain ⟨hloose, -⟩ := e.heard h.heard
    obtain ⟨rs, htrace⟩ := e.trace
    refine ⟨⟨h.loose.said.reads htrace, hloose⟩, rfl, ?_, ?_⟩
    · rw [Ne, Outcome.mapErr_eq_panic]
      exact ho.relabel_ne_panic e.safe
    · intro line hok
      exact absurd (Outcome.mapErr_eq_ok.mp hok) (ho.relabel line)

theorem commandOf_of_kind {line : Bytes} {kind : RequestKind} (h : requestKind line = .ok kind)
    (hkind : kind ≠ .command) : commandOf line = [] := by
  simp [commandOf, isCommandLine, h, hkind]

/-- A line that ends the loop of `next`. -/
structure Found (before : List Io) (opened : List Bytes) (link : Link) (kind : RequestKind) (line : Bytes) :
    Prop where
  tidy : Tidy before opened link.channel
  holds : Holds link.channel line
  kind_eq : requestKind line = .ok kind
  kind_mem : kind = .data ∨ kind = .end_ ∨ kind = .can

/-- The loop of `next`, by induction on its rounds: comments and empty lines
leave everything as it was. -/
theorem nextLine_post (fuel : ℕ) :
    ∀ {link : Link}, Tidy before opened link.channel → Blocked link.machine →
      Action.Post (nextLine fuel) link fun o link' =>
        Loose before opened link'.channel ∧ (link.channel.supply < fuel → o ≠ .panic) ∧
        ∀ kind line, o = .ok (kind, line) →
          Found before opened link' kind line ∧ link'.machine = link.machine := by
  induction fuel with
  | zero =>
      intro link h _
      rw [nextLine]
      apply Action.Post.lift
      exact ⟨h.loose, fun hlt => absurd hlt (Nat.not_lt_zero _), fun _ _ hok => absurd hok (by simp)⟩
  | succ fuel ih =>
      intro link h hblocked
      rw [nextLine]
      apply Action.Post.bind (readLine_post h)
      · rintro line link₁ ⟨hloose, hmachine, -, hline⟩
        obtain ⟨htidy, hholds, hsupply⟩ := hline line rfl
        rcases requestKind_cases line with ⟨kind, hkind⟩ | ⟨e, hkind⟩
        · rw [hkind, Outcome.mapErr_ok, Action.lift_ok_bind]
          by_cases hterm : kind = .end_ ∨ kind = .can
          · -- a terminator is returned as it is
            rw [if_pos hterm]
            refine ⟨hloose, fun _ => by simp, ?_⟩
            intro kind' line' hok
            obtain ⟨rfl, rfl⟩ := Prod.mk.inj (Outcome.ok.inj hok)
            have hnone : commandOf line = [] := by
              apply commandOf_of_kind hkind
              rintro rfl
              simp at hterm
            rw [hnone, List.append_nil] at htidy
            exact ⟨⟨htidy, hholds, hkind, Or.inr hterm⟩, hmachine⟩
          · rw [if_neg hterm]
            rw [not_or] at hterm
            rcases Link.receiveRequest_cases link₁ kind with ⟨hanswer, hrun⟩ | ⟨e, hrun⟩
            · have hsame : (link₁.machine.receiveRequest kind).2 = link₁.machine := by
                rw [hmachine] at hanswer ⊢
                exact hblocked.receiveRequest hterm.1 hterm.2 hanswer
              rw [hsame] at hrun
              apply Action.Post.bind_ok hrun
              have hnone : commandOf line = [] := by
                apply commandOf_of_kind hkind
                rintro rfl
                rw [hmachine] at hanswer
                rcases hblocked with hstate | hstate
                · simp [ServerMachine.receiveRequest, hstate] at hanswer
                · rw [Stuck.receiveRequest hstate] at hanswer
                  exact absurd hanswer (by simp)
              rw [hnone, List.append_nil] at htidy
              by_cases hdata : kind = .data
              · rw [if_pos hdata]
                refine ⟨hloose, fun _ => by simp, ?_⟩
                intro kind' line' hok
                obtain ⟨rfl, rfl⟩ := Prod.mk.inj (Outcome.ok.inj hok)
                exact ⟨⟨htidy, hholds, hkind, Or.inl hdata⟩, hmachine⟩
              · rw [if_neg hdata]
                have hrest := ih htidy (by rw [hmachine]; exact hblocked)
                obtain ⟨hloose', hpanic, hfound⟩ := hrest
                refine ⟨hloose', fun hfuel => hpanic (by omega), ?_⟩
                intro kind' line' hok
                obtain ⟨hfound', hmachine'⟩ := hfound kind' line' hok
                exact ⟨hfound', hmachine'.trans hmachine⟩
            · apply Action.Post.bind_failed hrun (Outcome.failed_err _)
              exact ⟨hloose, fun _ => by simp [Outcome.relabel],
                fun _ _ hok => absurd hok (by simp [Outcome.relabel])⟩
        · rw [hkind, Outcome.mapErr_err, Action.lift_err_bind]
          exact ⟨hloose, fun _ => by simp, fun _ _ hok => absurd hok (by simp)⟩
      · rintro o link₁ ho ⟨hloose, -, hpanic, -⟩
        exact ⟨hloose, fun _ => ho.relabel_ne_panic hpanic, fun _ _ hok => absurd hok (ho.relabel _)⟩

/-- The guard after its line was overwritten. -/
def edited (inquiry : ServerInquiry) (content : Bytes) : ServerInquiry :=
  { inquiry with link :=
    { inquiry.link with channel := inquiry.link.channel.editLine content } }

theorem accept_end (line : Bytes) :
    accept (.end_, line) inquiry = (.ok none, { inquiry with outcome := some .completed }) := rfl

theorem accept_can (line : Bytes) :
    accept (.can, line) inquiry = (.ok none, { inquiry with outcome := some .cancelled }) := rfl

/-- A data line is decoded where it is, then charged to the budget. -/
theorem accept_data {line : Bytes} (hlen : 2 ≤ line.length) :
    accept (.data, line) inquiry =
      match decodeRef (line.drop 2) with
      | none => (.err (.protocol .invalidEscape), inquiry.edited (line.take 2 ++ line.drop 2))
      | some decoded =>
          let content := line.take 2 ++ (decoded ++ (line.drop 2).drop decoded.length)
          match chargeLimit decoded.length inquiry with
          | none => (.err (.limit .capacityExceeded), inquiry.edited content)
          | some total =>
              (.ok (some decoded.length), { inquiry.edited content with received := total }) := by
  have hrun : onLink (decodeLine line) inquiry =
      ((decodeDataInPlace (line.drop 2)).1.mapErr .protocol,
        inquiry.edited (line.take 2 ++ (decodeDataInPlace (line.drop 2)).2)) := by
    rw [onLink, Action.zoom, decodeLine, if_pos hlen]
    rfl
  rw [accept]
  rw [decodeDataInPlace_eq] at hrun
  cases hdecode : decodeRef (line.drop 2) with
  | none =>
      rw [hdecode] at hrun
      rw [Action.bind_failed hrun (by simp)]
      rfl
  | some decoded =>
      rw [hdecode] at hrun
      rw [Action.bind_ok hrun, Action.bind_ok (Action.get_apply _)]
      have hcharge : ∀ content, chargeLimit decoded.length (inquiry.edited content) =
          chargeLimit decoded.length inquiry := fun _ => rfl
      simp only [hcharge]
      cases chargeLimit decoded.length inquiry with
      | none => rfl
      | some total => rfl
  · simp
  · simp

/-- What `accept` makes of a line: nothing can go wrong in a way that the last
lookup of `next` would notice. -/
theorem accept_post {kind : RequestKind} {line : Bytes}
    (h : Found before opened inquiry.link kind line) :
    Action.Post (accept (kind, line)) inquiry fun o inquiry' =>
      Loose before opened inquiry'.link.channel ∧ inquiry'.link.machine = inquiry.link.machine ∧
      o ≠ .panic ∧
      ∀ found, o = .ok found → Tidy before opened inquiry'.link.channel ∧
        ∀ len, found = some len → ∃ content, inquiry'.link.channel.receivedLine = some content ∧
          2 + len ≤ content.length := by
  unfold Action.Post
  rcases h.kind_mem with rfl | rfl | rfl
  · have hlen := length_of_data h.kind_eq
    rw [accept_data hlen]
    cases hdecode : decodeRef (line.drop 2) with
    | none => exact ⟨(h.tidy.editLine _).loose, rfl, by simp, fun _ hok => absurd hok (by simp)⟩
    | some decoded =>
        have hle := decodeRef_length hdecode
        rw [List.length_drop] at hle
        simp only
        cases chargeLimit decoded.length inquiry with
        | none => exact ⟨(h.tidy.editLine _).loose, rfl, by simp, fun _ hok => absurd hok (by simp)⟩
        | some total =>
            refine ⟨(h.tidy.editLine _).loose, rfl, by simp, ?_⟩
            intro found hfound
            refine ⟨h.tidy.editLine _, ?_⟩
            rintro len rfl
            obtain rfl : decoded.length = len := by simpa using hfound
            refine ⟨_, h.holds.editLine ?_, ?_⟩
            · simp only [List.length_append, List.length_take, List.length_drop]
              omega
            · simp only [List.length_append, List.length_take, List.length_drop]
              omega
  · rw [accept_end]
    refine ⟨h.tidy.loose, rfl, by simp, fun found hfound => ⟨h.tidy, ?_⟩⟩
    rintro len rfl
    exact absurd hfound (by simp)
  · rw [accept_can]
    refine ⟨h.tidy.loose, rfl, by simp, fun found hfound => ⟨h.tidy, ?_⟩⟩
    rintro len rfl
    exact absurd hfound (by simp)

/-- What a callback finds after `next`: as after any operation, and a success
leaves the machine where it was. -/
structure Advanced (before : List Io) (opened : List Bytes) (inquiry : ServerInquiry) (failed : Prop)
    (inquiry' : ServerInquiry) : Prop where
  tidy : Tidy before opened inquiry'.link.channel
  dead : failed → inquiry'.link.Dead
  same : ¬ failed → inquiry'.link.machine = inquiry.link.machine

theorem nextOperation_post (h : Tidy before opened inquiry.link.channel)
    (hblocked : Blocked inquiry.link.machine) :
    Action.Post nextOperation inquiry fun o inquiry' =>
      Advanced before opened inquiry o.Failed inquiry' ∧ o ≠ .panic ∧
      ∀ len, o = .ok (some len) → ∃ content, inquiry'.link.channel.receivedLine = some content ∧
        2 + len ≤ content.length := by
  have hloop := nextLine_post (inquiry.link.channel.supply + 1) h hblocked
  have hbody : Action.Post (do
      let inquiry ← Action.get
      let heard ← onLink (nextLine (inquiry.link.channel.supply + 1))
      accept heard) inquiry fun o inquiry' =>
        Loose before opened inquiry'.link.channel ∧ o ≠ .panic ∧
        ∀ found, o = .ok found → Tidy before opened inquiry'.link.channel ∧
          inquiry'.link.machine = inquiry.link.machine ∧
          ∀ len, found = some len → ∃ content, inquiry'.link.channel.receivedLine = some content ∧
            2 + len ≤ content.length := by
    apply Action.Post.get_bind
    have hread : Action.Post (onLink (nextLine (inquiry.link.channel.supply + 1))) inquiry
        fun o i => Loose before opened i.link.channel ∧ o ≠ .panic ∧
          ∀ kind line, o = .ok (kind, line) →
            Found before opened i.link kind line ∧ i.link.machine = inquiry.link.machine := by
      apply Action.Post.zoom
      obtain ⟨hloose, hpanic, hfound⟩ := hloop
      exact ⟨hloose, hpanic (Nat.lt_succ_self _), hfound⟩
    apply Action.Post.bind hread
    · rintro ⟨kind, line⟩ i ⟨hloose, hpanic, hfound⟩
      obtain ⟨hfound', hmachine⟩ := hfound kind line rfl
      apply Action.Post.mono (accept_post hfound')
      rintro o i' ⟨hloose', hsame, hpanic', hok⟩
      refine ⟨hloose', hpanic', ?_⟩
      intro found hfound''
      obtain ⟨htidy, hlen⟩ := hok found hfound''
      exact ⟨htidy, hsame.trans hmachine, hlen⟩
    · rintro o i ho ⟨hloose, hpanic, -⟩
      exact ⟨hloose, ho.relabel_ne_panic hpanic, fun found hok => absurd hok (ho.relabel found)⟩
  apply Action.Post.onFailure hbody
  · rintro found i' ⟨-, hpanic, hok⟩
    obtain ⟨htidy, hsame, hlen⟩ := hok found rfl
    refine ⟨⟨htidy, fun hfail => absurd hfail (by simp), fun _ => hsame⟩, hpanic, ?_⟩
    intro len hfound
    exact hlen len (Outcome.ok.inj hfound)
  · rintro o i' ho ⟨hloose, hpanic, -⟩
    refine ⟨⟨hloose.close, fun _ => Link.dead_abandon _, fun h => absurd ho h⟩, hpanic, ?_⟩
    intro len hok
    exact absurd hok (ho _)

/-- `next`: a failure kills the session, and a success leaves the inquiry open. -/
theorem next_post (h : Tidy before opened inquiry.link.channel)
    (hblocked : Blocked inquiry.link.machine) :
    Action.Post next inquiry fun o inquiry' =>
      Advanced before opened inquiry o.Failed inquiry' ∧ o ≠ .panic := by
  unfold next
  apply Action.Post.get_bind
  by_cases hdone : inquiry.outcome.isSome = true
  · rw [if_pos hdone]
    exact ⟨⟨h, fun hfail => absurd hfail (by simp), fun _ => rfl⟩, by simp⟩
  · rw [if_neg hdone]
    apply Action.Post.bind (nextOperation_post h hblocked)
    · rintro found i ⟨hadvanced, -, hlen⟩
      have hok : ¬ (Outcome.ok found : Outcome HandlerError (Option ℕ)).Failed := by simp
      cases found with
      | none =>
          rw [payload]
          apply Action.Post.pure
          exact ⟨⟨hadvanced.tidy, fun hfail => absurd hfail (by simp), fun _ => hadvanced.same hok⟩,
            by simp⟩
      | some len =>
          -- the second lookup finds the line that was just decoded
          obtain ⟨content, hcontent, hle⟩ := hlen len rfl
          have hrun : payload (some len) i =
              (.ok (some (PayloadRef.new ((content.take (2 + len)).drop 2) i.sensitivity)), i) := by
            rw [payload, Action.bind_ok (Action.get_apply i), hcontent, Outcome.okOr_some,
              Action.lift_ok_bind, if_pos hle, Outcome.index_some, Action.lift_ok_bind]
            rfl
          unfold Action.Post
          rw [hrun]
          exact ⟨⟨hadvanced.tidy, fun hfail => absurd hfail (by simp), fun _ => hadvanced.same hok⟩,
            by simp⟩
    · rintro o i ho ⟨hadvanced, hpanic, -⟩
      exact ⟨⟨hadvanced.tidy, fun _ => hadvanced.dead ho, fun h => absurd ho.relabel h⟩,
        ho.relabel_ne_panic hpanic⟩

/-- `finish`: a failure kills the session, and a dead session stays dead. -/
theorem finish_post (h : Tidy before opened inquiry.link.channel) :
    Tidy before opened inquiry.finish.2.channel ∧ (inquiry.finish.1.Failed → inquiry.finish.2.Dead) ∧
      (Stuck inquiry.link.machine → inquiry.finish.1.Failed) := by
  have hbody : Action.Post (do
      let outcome ← Action.lift (Outcome.okOr (.state .notReady) inquiry.outcome)
      Link.receiveRequest outcome.request
      pure outcome) inquiry.link fun o link' =>
        Link.Under before opened o link' ∧ (Stuck inquiry.link.machine → o.Failed) := by
    cases inquiry.outcome with
    | none => exact ⟨⟨h.loose, fun h => absurd (Outcome.failed_err _) h⟩, fun _ => Outcome.failed_err _⟩
    | some outcome =>
        rw [Outcome.okOr_some, Action.lift_ok_bind]
        rcases Link.receiveRequest_cases inquiry.link outcome.request with ⟨hanswer, hrun⟩ | ⟨e, hrun⟩
        · apply Action.Post.bind_ok hrun
          refine ⟨⟨h.loose, fun _ => h⟩, ?_⟩
          intro hstuck
          rw [hstuck.receiveRequest] at hanswer
          exact absurd hanswer (by simp)
        · apply Action.Post.bind_failed hrun (Outcome.failed_err _)
          exact ⟨⟨h.loose, fun h => absurd (Outcome.failed_err _) h⟩, fun _ => Outcome.failed_err _⟩
  obtain ⟨⟨htidy, hdead⟩, hok⟩ := Link.ioOperation_post hbody
  refine ⟨htidy, hdead, ?_⟩
  intro hstuck
  by_contra hfine
  exact hfine (hok hfine hstuck)

end Inquiries

end ServerInquiry

end Assuan
