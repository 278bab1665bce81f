import Assuan.Server.Recording
import Assuan.Transport.Flow

/-!
# How a stream is cut does not matter

A peer's bytes reach a session in pieces that nobody controls. The run of a
session is the same for every way to cut them: the same callbacks run, ask for the
same operations and get the same results, the same bytes are written, and the session
ends alike. Every operation of a callback is shown to respect `Same`, and a failed
operation leaves nothing that could tell the two runs apart.
-/

namespace Assuan

open Assuan.Action (Coupled Matches Respects coupled_lift_bind)
open Channel (Standing ReadEffect readLine_effect readLineOrEof_effect)

/-! ## §1  Links -/

namespace Link

variable {before before' : List Io} {link link' : Link} {α : Type}

structure Spent (before before' : List Io) (link link' : Link) : Prop where
  channel : Channel.Spent before before' link.channel link'.channel
  machine : link.machine = link'.machine

structure Same (before before' : List Io) (link link' : Link) : Prop where
  channel : Channel.Same before before' link.channel link'.channel
  machine : link.machine = link'.machine

theorem Same.spent (h : Same before before' link link') : Spent before before' link link' :=
  ⟨h.channel.toSpent, h.machine⟩

theorem Spent.abandon (h : Spent before before' link link') :
    Same before before' link.abandon link'.abandon := by
  refine ⟨h.channel.close, ?_⟩
  show link.machine.invalidate = link'.machine.invalidate
  rw [h.machine]

/-- An operation that respects `Same` until it fails, respects it altogether: its
guard closes the channel. -/
theorem respects_ioOperation {x : Action Link HandlerError α}
    (hx : Respects (Spent before before') (Same before before') x) :
    Respects (Same before before') (Same before before') (ioOperation x) :=
  hx.onFailure fun _ _ h => h.abandon

theorem respects_lift (o : Outcome HandlerError α) :
    Respects (Spent before before') (Same before before') (Action.lift o) :=
  Action.matches_lift (fun _ _ h => h.spent) o

theorem coupled_onChannel {x : Action Channel TransportError α} {P : α → Channel → Channel → Prop}
    (hx : Coupled (Channel.Spent before before') P (x link.channel) (x link'.channel))
    (hmachine : link.machine = link'.machine) :
    Coupled (Spent before before')
      (fun a next next' => P a next.channel next'.channel ∧ next.machine = next'.machine)
      (onChannel x link) (onChannel x link') := by
  apply Coupled.mapErr
  apply Coupled.zoom hx
  · intro ch ch' hspent
    exact ⟨hspent, hmachine⟩
  · intro _ ch ch' hP
    exact ⟨hP, hmachine⟩

theorem respects_onChannel {x : Action Channel TransportError α}
    (hx : Respects (Channel.Spent before before') (Channel.Same before before') x) :
    Respects (Spent before before') (Same before before') (onChannel x) := by
  intro link link' h
  apply Coupled.mono (coupled_onChannel (hx _ _ h.channel) h.machine)
  · intro _ _ hspent
    exact hspent
  · rintro _ next next' ⟨hsame, hmachine⟩
    exact ⟨hsame, hmachine⟩

theorem respects_writeLine (bytes : Bytes) :
    Respects (Spent before before') (Same before before') (writeLine bytes) :=
  respects_onChannel fun _ _ h => h.writeLine bytes

/-- A step of the machine, taken by both. -/
theorem respects_machine (step : ServerMachine → Except StateError Unit × ServerMachine) :
    Respects (Spent before before') (Same before before')
      (fun link : Link => ((ofState .state (step link.machine).1 : Outcome HandlerError Unit),
        ({ link with machine := (step link.machine).2 } : Link))) := by
  intro link link' h
  have hnext : Same before before' { link with machine := (step link.machine).2 }
      { link' with machine := (step link'.machine).2 } := by
    refine ⟨h.channel, ?_⟩
    show (step link.machine).2 = (step link'.machine).2
    rw [h.machine]
  simp only [h.machine] at hnext ⊢
  cases (step link'.machine).1 with
  | ok u => exact .ok hnext
  | error e => exact .failed (by simp [ofState]) hnext.spent

theorem respects_sendResponse (kind : LineKind) :
    Respects (Spent before before') (Same before before') (sendResponse kind) :=
  respects_machine fun machine => machine.sendResponse kind

theorem respects_receiveRequest (kind : RequestKind) :
    Respects (Spent before before') (Same before before') (receiveRequest kind) :=
  respects_machine fun machine => machine.receiveRequest kind

theorem respects_sendLine (line : ServerLine) :
    Respects (Spent before before') (Same before before') (sendLine line) := by
  unfold sendLine
  apply Matches.bind (respects_lift _)
  intro bytes
  apply Matches.bind (respects_sendResponse _)
  intro _
  exact respects_writeLine bytes

theorem respects_sendStatus (keyword : String) (args : Bytes) :
    Respects (Same before before') (Same before before') (sendStatus keyword args) :=
  respects_ioOperation (respects_sendLine _)

theorem respects_streamData (fuel : ℕ) (rest : Bytes) :
    Respects (Spent before before') (Same before before')
      (streamData writeLine HandlerError.protocol fuel rest) := by
  induction fuel generalizing rest with
  | zero => exact respects_lift _
  | succ fuel ih =>
      rw [streamData]
      apply Matches.bind (respects_lift _)
      rintro ⟨consumed, line⟩
      apply Matches.bind (respects_writeLine line)
      intro _
      apply Matches.bind (respects_lift _)
      intro rest
      split
      · exact Action.matches_pure ()
      · exact ih rest

theorem respects_sendData (data : Bytes) :
    Respects (Same before before') (Same before before') (sendData data) := by
  apply respects_ioOperation
  apply Matches.bind (respects_sendResponse _)
  intro _
  exact respects_streamData _ _

theorem respects_comment (text : Bytes) :
    Respects (Same before before') (Same before before') (comment text) := by
  apply respects_ioOperation
  apply Matches.bind (respects_lift _)
  intro body
  exact respects_sendLine _

theorem respects_flush (buffer : LineArray) (len : ℕ) :
    Respects (Same before before') (Same before before') (flush buffer len) := by
  apply Matches.bind (Action.matches_lift (fun _ _ h => h) _)
  intro text
  exact respects_comment text

theorem respects_packLoop (chars : List Bytes) (buffer : LineArray) (len : ℕ) :
    Respects (Same before before') (Same before before') (packLoop chars buffer len) := by
  induction chars generalizing buffer len with
  | nil =>
      unfold packLoop
      split
      · exact respects_flush _ _
      · exact Action.matches_pure ()
  | cons ch chars ih =>
      unfold packLoop makeRoom
      apply Matches.bind
      · split
        · apply Matches.bind (respects_flush _ _)
          intro _
          exact Action.matches_pure 0
        · exact Action.matches_pure len
      intro len
      apply Matches.bind (Action.matches_lift (fun _ _ h => h) _)
      intro buffer
      exact ih _ _

theorem respects_help (entries : List (String × String)) :
    Respects (Same before before') (Same before before') (help entries) := by
  apply Matches.forEach
  intro e he
  apply Matches.bind (Action.matches_lift (fun _ _ h => h) _)
  intro _
  exact respects_packLoop _ _ _

end Link

/-! ## §2  Inquiries -/

namespace ServerInquiry

variable {before before' : List Io} {inquiry inquiry' : ServerInquiry} {α : Type}

/-- The guards hold the same books over links related by `R`. -/
structure Over (R : Link → Link → Prop) (inquiry inquiry' : ServerInquiry) : Prop where
  link : R inquiry.link inquiry'.link
  sensitivity : inquiry.sensitivity = inquiry'.sensitivity
  limit : inquiry.limit = inquiry'.limit
  received : inquiry.received = inquiry'.received
  outcome : inquiry.outcome = inquiry'.outcome

theorem respects_begin (keyword : String) (args : Bytes) :
    Respects (Link.Same before before') (Link.Same before before') (begin keyword args) :=
  Link.respects_ioOperation (Link.respects_sendLine _)

theorem respects_onLink {bad R : Link → Link → Prop} {x : Action Link HandlerError α}
    (hx : Respects bad R x) : Respects (Over bad) (Over R) (onLink x) := by
  intro inquiry inquiry' h
  apply Coupled.zoom (hx _ _ h.link)
  · intro link link' hbad
    exact ⟨hbad, h.sensitivity, h.limit, h.received, h.outcome⟩
  · intro _ link link' hR
    exact ⟨hR, h.sensitivity, h.limit, h.received, h.outcome⟩

/-- A line that was read is missing from what each side has left. -/
theorem coupled_readLine {link link' : Link} (h : Link.Same before before' link link') :
    Coupled (Link.Spent before before') (fun _ next next' => Link.Same before before' next next' ∧
      next.channel.supply < link.channel.supply ∧ next'.channel.supply < link'.channel.supply)
      (Link.readLine link) (Link.readLine link') := by
  have hread := Coupled.post h.channel.readLine (readLine_effect h.channel.standing)
    (readLine_effect h.channel.standing')
  apply Coupled.mono (Link.coupled_onChannel hread h.machine)
  · intro _ _ hspent
    exact hspent
  · rintro line next next' ⟨⟨hsame, ⟨-, -, hline⟩, ⟨-, -, hline'⟩⟩, hmachine⟩
    exact ⟨⟨hsame, hmachine⟩, (hline line rfl).2, (hline' line rfl).2⟩

/-- The rounds that are left suffice on both sides, although what is left to be
read may differ behind the end of the stream. -/
theorem coupled_nextLine (fuel fuel' : ℕ) {link link' : Link}
    (h : Link.Same before before' link link') (hfuel : link.channel.supply < fuel)
    (hfuel' : link'.channel.supply < fuel') :
    Coupled (Link.Spent before before') (fun _ => Link.Same before before') (nextLine fuel link)
      (nextLine fuel' link') := by
  induction fuel generalizing fuel' link link' with
  | zero => exact absurd hfuel (Nat.not_lt_zero _)
  | succ fuel ih =>
      cases fuel' with
      | zero => exact absurd hfuel' (Nat.not_lt_zero _)
      | succ fuel' =>
          rw [nextLine, nextLine]
          apply Coupled.bind (coupled_readLine h)
          rintro line next next' ⟨hsame, hless, hless'⟩
          apply coupled_lift_bind
          swap
          · intro _
            exact hsame.spent
          intro kind _
          split
          · exact Action.coupled_pure hsame
          have hkeeps : ∀ link : Link, Action.Post (Link.receiveRequest kind) link fun _ next =>
              next.channel = link.channel := fun _ => rfl
          apply Coupled.bind (Coupled.post (Link.respects_receiveRequest kind _ _ hsame)
            (hkeeps next) (hkeeps next'))
          rintro _ after after' ⟨hsame, hch, hch'⟩
          split
          · exact Action.coupled_pure hsame
          · apply ih _ hsame
            · rw [hch]
              exact Nat.lt_of_lt_of_le hless (Nat.le_of_lt_succ hfuel)
            · rw [hch']
              exact Nat.lt_of_lt_of_le hless' (Nat.le_of_lt_succ hfuel')

theorem respects_decodeLine (line : Bytes) :
    Respects (Link.Spent before before') (Link.Same before before') (decodeLine line) := by
  intro link link' h
  unfold decodeLine
  split
  · have hedit : ∀ content, Link.Same before before'
        { link with channel := link.channel.editLine content }
        { link' with channel := link'.channel.editLine content } :=
      fun content => ⟨h.channel.editLine content, h.machine⟩
    rcases ((decodeDataInPlace (line.drop 2)).1.mapErr HandlerError.protocol).ok_or_failed with
      ⟨len, hlen⟩ | hfail
    · rw [hlen]
      exact .ok (hedit _)
    · exact .failed hfail (hedit _).spent
  · exact .failed (by simp) h.spent

theorem Over.mono {R R' : Link → Link → Prop} (h : Over R inquiry inquiry')
    (himp : ∀ link link', R link link' → R' link link') : Over R' inquiry inquiry' :=
  ⟨himp _ _ h.link, h.sensitivity, h.limit, h.received, h.outcome⟩

theorem respects_accept (heard : RequestKind × Bytes) :
    Respects (Over (Link.Spent before before')) (Over (Link.Same before before')) (accept heard) := by
  obtain ⟨kind, line⟩ := heard
  have hterm : ∀ outcome, Respects (Over (Link.Spent before before'))
      (Over (Link.Same before before')) (do
        Action.modify fun inquiry : ServerInquiry => { inquiry with outcome := some outcome }
        (pure none : Action ServerInquiry HandlerError (Option ℕ))) := by
    intro outcome
    apply Matches.bind
    · apply Action.matches_modify
      intro _ _ h
      exact ⟨h.link, h.sensitivity, h.limit, h.received, rfl⟩
    · intro _
      exact Action.matches_pure none
  have hdata : Respects (Over (Link.Spent before before')) (Over (Link.Same before before')) (do
      let len ← onLink (decodeLine line)
      let inquiry ← Action.get
      let total ← Action.lift (Outcome.okOr (.limit .capacityExceeded) (chargeLimit len inquiry))
      Action.modify fun inquiry => { inquiry with received := total }
      pure (some len)) := by
    apply Matches.bind (respects_onLink (respects_decodeLine line))
    intro len inquiry inquiry' h
    apply Action.coupled_get
    have hcharge : chargeLimit len inquiry = chargeLimit len inquiry' := by
      rw [chargeLimit, chargeLimit, h.received, h.limit]
    rw [hcharge]
    apply coupled_lift_bind
    · intro total _
      apply Action.coupled_modify_bind
      exact Action.coupled_pure ⟨h.link, h.sensitivity, h.limit, rfl, h.outcome⟩
    · intro _
      exact h.mono fun _ _ hsame => hsame.spent
  cases kind with
  | end_ => exact hterm _
  | can => exact hterm _
  | _ => exact hdata

theorem respects_nextOperation :
    Respects (Over (Link.Same before before')) (Over (Link.Same before before')) nextOperation := by
  unfold nextOperation
  apply Matches.onFailure (M := Over (Link.Spent before before'))
  · apply Action.matches_get
    intro inquiry inquiry' h
    apply Coupled.bind (P := fun _ => Over (Link.Same before before'))
    · apply Coupled.zoom (coupled_nextLine _ _ h.link (Nat.lt_succ_self _) (Nat.lt_succ_self _))
      · intro link link' hspent
        exact ⟨hspent, h.sensitivity, h.limit, h.received, h.outcome⟩
      · intro _ link link' hsame
        exact ⟨hsame, h.sensitivity, h.limit, h.received, h.outcome⟩
    · intro heard inquiry inquiry' h
      exact respects_accept heard inquiry inquiry' h
  · intro _ _ h
    exact ⟨h.link.abandon, h.sensitivity, h.limit, h.received, h.outcome⟩

theorem respects_payload (len : Option ℕ) :
    Respects (Over (Link.Same before before')) (Over (Link.Same before before')) (payload len) := by
  cases len with
  | none => exact Action.matches_pure none
  | some len =>
      apply Action.matches_get
      intro inquiry inquiry' h
      rw [h.link.channel.receivedLine, h.sensitivity]
      refine coupled_lift_bind ?_ fun _ => h
      intro line _
      refine coupled_lift_bind ?_ fun _ => h
      intro data _
      exact Action.coupled_pure h

theorem respects_next :
    Respects (Over (Link.Same before before')) (Over (Link.Same before before')) next := by
  apply Action.matches_get
  intro inquiry inquiry' h
  rw [h.outcome]
  split
  · exact Action.coupled_pure h
  · apply Coupled.bind (respects_nextOperation _ _ h)
    intro len inquiry inquiry' h
    exact respects_payload len _ _ h

theorem coupled_finish (h : Over (Link.Same before before') inquiry inquiry') :
    Coupled (Link.Same before before') (fun _ => Link.Same before before') (finish inquiry)
      (finish inquiry') := by
  unfold finish
  rw [h.outcome]
  refine Link.respects_ioOperation ?_ _ _ h.link
  apply Matches.bind (Link.respects_lift _)
  intro outcome
  apply Matches.bind (Link.respects_receiveRequest _)
  intro _
  exact Action.matches_pure outcome

end ServerInquiry

/-! ## §3  Callbacks -/

section Callbacks

variable {S : Type} {before before' : List Io}

/-- What both sides hold in each mode. -/
def SameHeld (before before' : List Io) : (mode : Mode) → Held mode → Held mode → Prop
  | .context => Link.Same before before'
  | .inquiry => ServerInquiry.Over (Link.Same before before')

structure Report.Same (before before' : List Io) (report report' : Report S) : Prop where
  result : report.result = report'.result
  state : report.state = report'.state
  faulty : report.faulty = report'.faulty
  link : Link.Same before before' report.link report'.link

/-- A callback sees the same outcome of every operation, and so goes on alike. -/
theorem Program.run_same (limit : ℕ) {mode : Mode} (p : Program S mode) :
    ∀ {held held' : Held mode} {faulty : Bool}, SameHeld before before' mode held held' →
      Report.Same before before' (p.run limit held faulty) (p.run limit held' faulty) := by
  induction p with
  | done result state =>
      intro link link' faulty h
      exact ⟨rfl, rfl, rfl, h⟩
  | expire state =>
      intro link link' faulty h
      exact ⟨rfl, rfl, rfl, h⟩
  | sendData data k ih =>
      intro link link' faulty h
      have hrun := Link.respects_sendData data link link' h
      simp only [Program.run]
      rw [← hrun.outcome]
      exact ih _ (hrun.states fun _ _ _ hsame => hsame)
  | sendStatus keyword args k ih =>
      intro link link' faulty h
      have hrun := Link.respects_sendStatus keyword args link link' h
      simp only [Program.run]
      rw [← hrun.outcome]
      exact ih _ (hrun.states fun _ _ _ hsame => hsame)
  | inquire keyword args sensitivity opened failed ihopened ihfailed =>
      intro link link' faulty h
      have hrun := ServerInquiry.respects_begin keyword args link link' h
      have hlink := hrun.states fun _ _ _ hsame => hsame
      simp only [Program.run]
      rw [← hrun.outcome]
      split
      · exact ihopened ⟨hlink, rfl, rfl, rfl, rfl⟩
      · exact ihfailed _ hlink
  | next k ih =>
      intro inquiry inquiry' faulty h
      have hrun := ServerInquiry.respects_next inquiry inquiry' h
      simp only [Program.run]
      rw [← hrun.outcome]
      exact ih _ (hrun.states fun _ _ _ hsame => hsame)
  | finish k ih =>
      intro inquiry inquiry' faulty h
      have hrun := ServerInquiry.coupled_finish h
      simp only [Program.run]
      rw [← hrun.outcome]
      exact ih _ (hrun.states fun _ _ _ hsame => hsame)
  | drop k ih =>
      intro inquiry inquiry' faulty h
      exact ih h.link.spent.abandon
  | forget k ih =>
      intro inquiry inquiry' faulty h
      exact ih h.link

end Callbacks

/-! ## §4  Sessions -/

open Channel (Sent sent_start written written_append)

/-- What of a block does not depend on how the stream was cut. -/
def Block.seen (block : Block) : Option Bytes × Option (Except HandlerError Unit) × Bool × Bytes :=
  (block.opener, block.result, block.faulty, written block.traffic)

namespace Session

variable {S α : Type} {before before' : List Io} {session session' : Session S}

/-- Sessions over links related by `R`, in blocks that began after `before` and
`before'`. -/
structure Over (R : Link → Link → Prop) (before before' : List Io) (session session' : Session S) :
    Prop where
  link : R session.link session'.link
  state : session.state = session'.state
  authenticated : session.authenticated = session'.authenticated
  horizon : session.horizon = session'.horizon
  opener : session.opener = session'.opener
  result : session.result = session'.result
  faulty : session.faulty = session'.faulty
  mark : session.mark = before.length
  mark' : session'.mark = before'.length
  past : session.past.map Block.seen = session'.past.map Block.seen
  sent : written before = written before'

/-- Both sides go on alike. -/
def Along (session session' : Session S) : Prop :=
  ∃ before before', Over (Link.Same before before') before before' session session'

/-- Both sides have the same to show, but may not be used any more. -/
def Lost (session session' : Session S) : Prop :=
  ∃ before before', Over (Link.Spent before before') before before' session session'

theorem Over.mono {R R' : Link → Link → Prop} (h : Over R before before' session session')
    (himp : ∀ link link', R link link' → R' link link') :
    Over R' before before' session session' := { h with link := himp _ _ h.link }

theorem Over.replace {R R' : Link → Link → Prop} {link link' : Link}
    (h : Over R before before' session session') (hlink : R' link link') :
    Over R' before before' { session with link := link } { session' with link := link' } :=
  { h with link := hlink }

theorem Along.lost (h : Along session session') : Lost session session' := by
  obtain ⟨before, before', h⟩ := h
  exact ⟨before, before', h.mono fun _ _ hsame => hsame.spent⟩

/-- The blocks show the same. -/
theorem Over.seen (h : Over (Link.Spent before before') before before' session session') :
    session.blocks.map Block.seen = session'.blocks.map Block.seen := by
  obtain ⟨since, since', htrace, htrace', hwritten⟩ := h.link.channel.sent
  have hcurrent : session.current.seen = session'.current.seen := by
    show (session.opener, session.result, session.faulty,
        written (session.link.channel.trace.drop session.mark)) =
      (session'.opener, session'.result, session'.faulty,
        written (session'.link.channel.trace.drop session'.mark))
    rw [htrace, htrace', h.mark, h.mark', List.drop_left, List.drop_left, hwritten, h.opener,
      h.result, h.faulty]
  rw [blocks, blocks, List.map_append, List.map_append, h.past, List.map_singleton,
    List.map_singleton, hcurrent]

theorem Over.written_eq (h : Over (Link.Spent before before') before before' session session') :
    written session.link.channel.trace = written session'.link.channel.trace := by
  obtain ⟨since, since', htrace, htrace', hwritten⟩ := h.link.channel.sent
  rw [htrace, htrace', written_append, written_append, hwritten, h.sent]

theorem respects_lift (o : Outcome ServerError α) :
    Respects Lost Along (Action.lift o : Action (Session S) ServerError α) :=
  Action.matches_lift (fun _ _ h => h.lost) o

theorem respects_onLink {x : Action Link HandlerError α}
    (hx : ∀ before before', Respects (Link.Spent before before') (Link.Same before before') x) :
    Respects Lost Along (onLink x : Action (Session S) ServerError α) := by
  rintro session session' ⟨before, before', h⟩
  apply Coupled.mapErr
  apply Coupled.zoom (hx before before' _ _ h.link)
  · intro link link' hspent
    exact ⟨before, before', h.replace hspent⟩
  · intro _ link link' hsame
    exact ⟨before, before', h.replace hsame⟩

theorem respects_deadline (duration : ℕ) :
    Respects Lost Along (deadline duration : Action (Session S) ServerError Unit) := by
  rintro session session' ⟨before, before', h⟩
  have hnext : Along { session with horizon := session.horizon.tail }
      { session' with horizon := session'.horizon.tail } := by
    refine ⟨before, before', { h with horizon := ?_ }⟩
    rw [h.horizon]
  unfold deadline
  rw [h.horizon] at hnext ⊢
  by_cases hzero : duration = 0
  · rw [if_pos hzero, if_pos hzero]
    exact .failed (by simp) (Along.lost ⟨before, before', h⟩)
  · rw [if_neg hzero, if_neg hzero]
    by_cases hover : session'.horizon.headD false = true
    · rw [if_pos hover]
      exact .failed (by simp) hnext.lost
    · rw [if_neg hover]
      exact .ok hnext

theorem respects_validate (options : ServerOptions) :
    Respects Lost Along (validate options : Action (Session S) ServerError Unit) := by
  unfold validate
  split
  · exact respects_lift _
  · apply Matches.forEach
    intro duration _
    exact respects_deadline duration

theorem respects_settle (result : Except HandlerError Unit) :
    Respects Lost Along (settle (S := S) result) := by
  rintro session session' ⟨before, before', h⟩
  exact .ok ⟨before, before', { h with result := rfl }⟩

theorem respects_callback (limit : ℕ) (body : CommandContext S → Program S .context) :
    Respects Lost Along (callback limit body) := by
  rintro session session' ⟨before, before', h⟩
  have hreport : Report.Same before before'
      ((body ⟨session.state, session.authenticated⟩).run limit session.link false)
      ((body ⟨session'.state, session'.authenticated⟩).run limit session'.link false) := by
    rw [← h.state, ← h.authenticated]
    exact Program.run_same limit _ h.link
  unfold callback
  generalize (body ⟨session.state, session.authenticated⟩).run limit session.link false = report
    at hreport
  generalize (body ⟨session'.state, session'.authenticated⟩).run limit session'.link false = report'
    at hreport
  obtain ⟨result, state, faulty, link⟩ := report
  obtain ⟨result', state', faulty', link'⟩ := report'
  obtain ⟨rfl, rfl, rfl, hlink⟩ := hreport
  have hnext : Along
      { session with link := link, state := state, result := result, faulty := faulty }
      { session' with link := link', state := state, result := result, faulty := faulty } :=
    ⟨before, before', { h with link := hlink, state := rfl, result := rfl, faulty := rfl }⟩
  cases result with
  | some result => exact .ok hnext
  | none => exact .failed (by simp) hnext.lost

theorem respects_listing (entries : List (String × String)) :
    Respects Lost Along (help (S := S) entries) := by
  rintro session session' ⟨before, before', h⟩
  have hrun := Link.respects_help entries _ _ h.link
  unfold help
  rcases hx : Link.help entries session.link with ⟨o, link⟩
  rcases hy : Link.help entries session'.link with ⟨o', link'⟩
  rw [hx, hy] at hrun
  obtain rfl : o = o' := hrun.outcome
  have hlink : Link.Same before before' link link' := hrun.states fun _ _ _ hsame => hsame
  cases o with
  | ok u => exact .ok ⟨before, before', { h with link := hlink, result := rfl }⟩
  | err e => exact .ok ⟨before, before', { h with link := hlink, result := rfl, faulty := rfl }⟩
  | panic =>
      exact .failed (by simp) (Along.lost ⟨before, before', { h with link := hlink, faulty := rfl }⟩)
  | dropped =>
      exact .failed (by simp) (Along.lost ⟨before, before', { h with link := hlink, faulty := rfl }⟩)

theorem respects_dispatch (service : Service S) (command : Command) :
    Respects Lost Along (dispatch service command) := by
  unfold dispatch
  simp only
  cases route service.registry command.name with
  | nothing => exact respects_settle _
  | help =>
      intro session session' h
      obtain ⟨before, before', hover⟩ := h
      simp only
      rw [hover.state]
      exact respects_listing _ _ _ ⟨before, before', hover⟩
  | option =>
      simp only
      split
      · exact respects_callback _ _
      · exact respects_settle _
  | reset => exact respects_callback _ _
  | handler handler => exact respects_callback _ _
  | unknown => exact respects_settle _

theorem respects_finalize (result : Except HandlerError Unit) (greeting : Bool) :
    Respects Lost Along (finalize (S := S) result greeting) := by
  unfold finalize
  apply Matches.bind (respects_lift _)
  intro _
  apply Action.matches_get
  intro session session' h
  have hmachine : session.link.machine = session'.link.machine := by
    obtain ⟨before, before', hover⟩ := h
    exact hover.link.machine
  rw [hmachine]
  refine Matches.bind (respects_lift _) (fun _ => ?_) session session' h
  apply Matches.bind (respects_lift _)
  intro line
  apply Matches.bind (respects_lift _)
  intro bytes
  apply Matches.bind (respects_onLink fun _ _ => Link.respects_sendResponse _)
  intro _
  apply Matches.bind (respects_onLink fun _ _ => Link.respects_writeLine _)
  intro _
  exact respects_lift _

/-! ### The loop -/

/-- One line read by both, or the end of the stream met by both. -/
theorem coupled_readLineOrEof (h : Along session session') :
    Coupled Lost (fun line next next' => Lost next next' ∧ (line ≠ none → Along next next' ∧
        next.link.channel.supply < session.link.channel.supply ∧
        next'.link.channel.supply < session'.link.channel.supply))
      ((onLink (Link.onChannel Channel.readLineOrEof) : Action (Session S) _ _) session)
      ((onLink (Link.onChannel Channel.readLineOrEof) : Action (Session S) _ _) session') := by
  obtain ⟨before, before', h⟩ := h
  have heffect : ∀ {ch : Channel}, Standing ch →
      Action.Post Channel.readLineOrEof ch (ReadEffect ch) := readLineOrEof_effect
  have hread := Coupled.post h.link.channel.readLineOrEof (heffect h.link.channel.standing)
    (heffect h.link.channel.standing')
  apply Coupled.mapErr
  apply Coupled.zoom (Link.coupled_onChannel hread h.link.machine)
  · intro link link' hspent
    exact ⟨before, before', h.replace hspent⟩
  · rintro line link link' ⟨⟨⟨hspent, hsame⟩, heffect, heffect'⟩, hmachine⟩
    refine ⟨⟨before, before', h.replace (⟨hspent, hmachine⟩ : Link.Spent before before' link link')⟩, ?_⟩
    intro hline
    obtain ⟨l, rfl⟩ := Option.ne_none_iff_exists'.mp hline
    obtain ⟨-, -, -, -, -, -, hless⟩ := heffect.line l rfl
    obtain ⟨-, -, -, -, -, -, hless'⟩ := heffect'.line l rfl
    exact ⟨⟨before, before', h.replace (⟨hsame hline, hmachine⟩ : Link.Same before before' link link')⟩,
      hless, hless'⟩

theorem coupled_nextCommand (fuel fuel' : ℕ) {session session' : Session S}
    (h : Along session session') (hfuel : session.link.channel.supply < fuel)
    (hfuel' : session'.link.channel.supply < fuel') :
    Coupled Lost (fun line next next' => Lost next next' ∧ (line ≠ none → Along next next'))
      (nextCommand fuel session) (nextCommand fuel' session') := by
  induction fuel generalizing fuel' session session' with
  | zero => exact absurd hfuel (Nat.not_lt_zero _)
  | succ fuel ih =>
      cases fuel' with
      | zero => exact absurd hfuel' (Nat.not_lt_zero _)
      | succ fuel' =>
          rw [nextCommand, nextCommand]
          apply Coupled.bind (coupled_readLineOrEof h)
          rintro line next next' ⟨hlost, hline⟩
          cases line with
          | none => exact Action.coupled_pure ⟨hlost, fun h => absurd rfl h⟩
          | some line =>
              obtain ⟨halong, hless, hless'⟩ := hline (by simp)
              simp only
              refine coupled_lift_bind ?_ fun _ => hlost
              intro kind _
              have hkeeps : ∀ session : Session S,
                  Action.Post (onLink (Link.receiveRequest kind)) session fun _ next =>
                    next.link.channel = session.link.channel := fun _ => rfl
              apply Coupled.bind (Coupled.post
                (respects_onLink (fun _ _ => Link.respects_receiveRequest kind) _ _ halong)
                (hkeeps next) (hkeeps next'))
              rintro _ after after' ⟨halong, hch, hch'⟩
              split
              · apply ih _ halong
                · rw [hch]
                  exact Nat.lt_of_lt_of_le hless (Nat.le_of_lt_succ hfuel)
                · rw [hch']
                  exact Nat.lt_of_lt_of_le hless' (Nat.le_of_lt_succ hfuel')
              · exact Action.coupled_pure ⟨halong.lost, fun _ => halong⟩

/-- A new block begins where both sides have written the same. -/
theorem respects_openBlock (line : Bytes) :
    Respects Lost Along (Action.modify (openBlock line) : Action (Session S) ServerError Unit) := by
  apply Action.matches_modify
  rintro session session' ⟨before, before', h⟩
  have hspent := h.mono fun _ _ hsame => hsame.spent
  exact ⟨session.link.channel.trace, session'.link.channel.trace,
    ⟨h.link.channel.rebase, h.link.machine⟩, h.state, h.authenticated, h.horizon, rfl, rfl, rfl, rfl,
    rfl, hspent.seen, hspent.written_eq⟩

theorem respects_answer (service : Service S) (line : Bytes) :
    Respects Lost Along (answer service line) := by
  unfold answer
  apply Matches.bind (respects_openBlock line)
  intro _
  apply Matches.bind (respects_lift _)
  intro command
  apply Matches.bind (respects_deadline _)
  intro _
  apply Matches.bind (respects_dispatch service command)
  intro result
  apply Matches.bind (respects_finalize result false)
  intro _
  exact Action.matches_pure _

theorem coupled_serve (service : Service S) (rounds : ℕ) {session session' : Session S}
    (h : Along session session') :
    Coupled Lost (fun _ => Lost) (serve service rounds session) (serve service rounds session') := by
  induction rounds generalizing session session' with
  | zero => exact Action.coupled_lift (fun _ _ => h.lost) fun _ => h.lost
  | succ rounds ih =>
      rw [serve]
      apply Coupled.bind (respects_deadline _ _ _ h)
      intro _ next next' h
      apply Action.coupled_get
      apply Coupled.bind (coupled_nextCommand _ _ h (Nat.lt_succ_self _) (Nat.lt_succ_self _))
      rintro line next next' ⟨hlost, hline⟩
      cases line with
      | none => exact Action.coupled_pure hlost
      | some line =>
          apply Coupled.bind (respects_answer service line _ _ (hline (by simp)))
          intro closing next next' h
          split
          · exact Action.coupled_pure h.lost
          · exact ih h

theorem coupled_drive (service : Service S) (rounds : ℕ) (h : Along session session') :
    Coupled Lost (fun _ => Lost) (drive service rounds session) (drive service rounds session') := by
  unfold drive
  apply Coupled.bind (respects_deadline _ _ _ h)
  intro _ next next' h
  apply Coupled.bind (respects_callback _ _ _ _ h)
  intro auth next next' h
  apply Coupled.bind (respects_finalize auth true _ _ h)
  rintro _ next next' ⟨before, before', h⟩
  apply Action.coupled_modify_bind
  exact coupled_serve service rounds ⟨before, before', { h with authenticated := rfl }⟩

theorem respects_closing (service : Service S) (result : Outcome ServerError Unit) :
    Respects Lost Along (closing service result) := by
  unfold closing
  apply Matches.bind (respects_deadline _)
  intro _
  apply Action.matches_get
  rintro session session' ⟨before, before', h⟩
  rw [← h.state]
  apply Action.coupled_modify_bind
  exact respects_lift _ _ _ ⟨before, before', { h with state := rfl }⟩

theorem coupled_run (service : Service S) (rounds : ℕ) (h : Along session session') :
    Coupled Lost (fun _ => Lost) (run service rounds session) (run service rounds session') := by
  unfold run
  apply Coupled.bind (respects_validate _ _ _ h)
  intro _ next next' h
  have hdrive := coupled_drive service rounds h
  rcases hx : drive service rounds next with ⟨result, session⟩
  rcases hy : drive service rounds next' with ⟨result', session'⟩
  rw [hx, hy] at hdrive
  obtain rfl : result = result' := hdrive.outcome
  have hlost : Lost session session' := hdrive.states fun _ _ _ hlost => hlost
  -- the hook runs on closed channels, which are alike again
  have hclosed : Coupled Lost (fun _ => Lost)
      (closing service result { session with
        link := ⟨session.link.channel.close, session.link.machine.close⟩ })
      (closing service result { session' with
        link := ⟨session'.link.channel.close, session'.link.machine.close⟩ }) := by
    obtain ⟨before, before', hover⟩ := hlost
    have hlink : Link.Same before before' ⟨session.link.channel.close, session.link.machine.close⟩
        ⟨session'.link.channel.close, session'.link.machine.close⟩ := by
      refine ⟨hover.link.channel.close, ?_⟩
      show session.link.machine.close = session'.link.machine.close
      rw [hover.link.machine]
    apply Coupled.mono (respects_closing service result _ _ ⟨before, before', hover.replace hlink⟩)
    · intro _ _ h
      exact h
    · intro _ _ _ h
      exact h.lost
  cases result with
  | ok u => exact hclosed
  | err e => exact hclosed
  | panic => exact .failed (by simp) hlost
  | dropped => exact .failed (by simp) hlost

/-! ## §5  The whole run -/

/-- Two finished runs that nobody can tell apart: the application state, all that
was written, and for each command line its callback's result and the bytes
written for it. -/
structure Indistinguishable (session session' : Session S) : Prop where
  state : session.state = session'.state
  authenticated : session.authenticated = session'.authenticated
  written_eq : written session.link.channel.trace = written session'.link.channel.trace
  seen : session.blocks.map Block.seen = session'.blocks.map Block.seen

/-- What the streams carry decides the run, up to what nobody can tell apart. -/
theorem run_same (service : Service S) (rounds : ℕ) {stream stream' : Stream}
    (clock horizon : List Bool) (state : S)
    (hbytes : Channel.incoming stream.reads = Channel.incoming stream'.reads)
    (hstop : Channel.stop stream.reads = Channel.stop stream'.reads)
    (hwrites : stream.writes = stream'.writes) :
    (run service rounds (new stream clock horizon state)).1 =
        (run service rounds (new stream' clock horizon state)).1 ∧
      Indistinguishable (run service rounds (new stream clock horizon state)).2
        (run service rounds (new stream' clock horizon state)).2 := by
  have hnew : Along (new stream clock horizon state) (new stream' clock horizon state) :=
    ⟨[], [], ⟨Channel.same_new clock hbytes hstop hwrites, rfl⟩, rfl, rfl, rfl, rfl, rfl, rfl, rfl,
      rfl, rfl, rfl⟩
  have hrun := coupled_run service rounds hnew
  refine ⟨hrun.outcome, ?_⟩
  obtain ⟨before, before', h⟩ := hrun.states fun _ _ _ hlost => hlost
  exact ⟨h.state, h.authenticated, h.written_eq, h.seen⟩

/-- **Fragmentation.** Two streams that carry the same bytes up to the same end
or failure, and accept the same writes, lead every session of every service to
the same outcome, however the bytes are cut into reads and whatever the streams
would have delivered behind their end. On the way every callback is called with the
same, asks for the same operations in the same order and gets the same results. -/
theorem run_fragmentation (service : Service S) (rounds : ℕ) {stream stream' : Stream}
    (clock horizon : List Bool) (state : S)
    (hbytes : Channel.incoming stream.reads = Channel.incoming stream'.reads)
    (hstop : Channel.stop stream.reads = Channel.stop stream'.reads)
    (hwrites : stream.writes = stream'.writes) :
    ∃ o notes ended ended',
      RunsTo service rounds (new stream clock horizon state) notes o ended ∧
      RunsTo service rounds (new stream' clock horizon state) notes o ended' ∧
      Indistinguishable ended ended' := by
  obtain ⟨houtcome, hsame⟩ := run_same service rounds clock horizon state hbytes hstop hwrites
  obtain ⟨-, hnoted⟩ := run_same service.recording rounds clock horizon (state, []) hbytes hstop
    hwrites
  refine ⟨_, _, _, _, runsTo service rounds (new stream clock horizon state), ?_, hsame⟩
  have hnotes : (run service.recording rounds (new stream clock horizon (state, []))).2.state.2 =
      (run service.recording rounds (new stream' clock horizon (state, []))).2.state.2 :=
    congrArg Prod.snd hnoted.state
  have hruns := runsTo service rounds (new stream' clock horizon state)
  rw [← houtcome] at hruns
  exact hnotes ▸ hruns

/-- A service that reports how it was reset. -/
def reportingService : Service ℕ where
  registry := ⟨[], List.nodup_nil⟩
  hooks := { defaultHooks ℕ with
    reset := fun context => .sendStatus "PROGRESS" (asBytes "1") fun _ =>
      .done (.ok ()) (context.state + 1) }
  options := ⟨1, 1, 1, 1, 1, 1, 1⟩
  listing := fun _ => []
  listing_names := fun _ => .refl _

/-- Two commands and the start of a third one in one piece, before the stream fails. -/
def wholeStream : Stream :=
  ⟨[.data ⟨asBytes "RESET\nNOP\nHE", by decide, by decide⟩, .failed], [.done, .expired 3]⟩

/-- The same in two pieces, with something more behind the failure. -/
def tornStream : Stream :=
  ⟨[.data ⟨asBytes "RES", by decide, by decide⟩, .data ⟨asBytes "ET\nNOP\nHE", by decide, by decide⟩,
    .failed, .data ⟨asBytes "LP\n", by decide, by decide⟩], [.done, .expired 3]⟩

theorem run_fragmentation_torn : ∃ o notes ended ended',
    RunsTo reportingService 5 (new wholeStream [] [] 0) notes o ended ∧
      RunsTo reportingService 5 (new tornStream [] [] 0) notes o ended' ∧
      Indistinguishable ended ended' := by
  have hbytes : Channel.incoming wholeStream.reads = Channel.incoming tornStream.reads := by decide
  exact run_fragmentation reportingService 5 [] [] 0 hbytes rfl rfl

end Session

end Assuan
