import Assuan.Client.Attribution
import Assuan.Client.Retention
import Assuan.Fidelity.Events

/-!
# What is collected

A complete response is a list of lines that ends with `OK` or `ERR`. Over a
channel without faults `collect` and `collect_secret` keep the whole of it, or stop
at the first limit that it breaks.
-/

namespace Assuan

open Channel LineBuffer SessionCore

/-! ## §1  Complete responses -/

/-- A line on the wire, and what it says. -/
structure Wired (seg : Bytes) (parsed : ServerLine) : Prop where
  terminated : Terminated lf seg
  fits : seg.length ≤ maxLineBytes
  parses : parseServerLine (stripTerminator seg) = .ok parsed
  decodes : parsed.content.isSome = true

/-- The machine accepts the lines as one response, with `CAN` for an inquiry. The
last of them is the only final one. -/
inductive Completes : ClientMachine → List ServerLine → Option UInt32 → Prop where
  | final {machine machine' : ClientMachine} {line : ServerLine} :
      line.kind = .ok ∨ line.kind = .err → machine.receive line.kind = (.ok (), machine') →
      Completes machine [line] line.code
  | cancel {machine machine' machine'' : ClientMachine} {keyword : String} {args : Bytes}
      {lines : List ServerLine} {code : Option UInt32} :
      machine.receive .inquire = (.ok (), machine') →
      machine'.finishInquiry true = (.ok (), machine'') → Completes machine'' lines code →
      Completes machine (.inquire keyword args :: lines) code
  | line {machine machine' : ClientMachine} {line : ServerLine} {lines : List ServerLine}
      {code : Option UInt32} :
      line.kind ≠ .ok → line.kind ≠ .err → line.kind ≠ .inquire →
      machine.receive line.kind = (.ok (), machine') → Completes machine' lines code →
      Completes machine (line :: lines) code

def inquiries (lines : List ServerLine) : ℕ := lines.countP (·.kind = .inquire)

/-! ## §2  Lines become events -/

/-- Nothing fails from now on, and `input` is left to read. -/
structure Expecting (core : SessionCore) (input : Bytes) : Prop where
  ideal : Ideal core.channel input
  live : ¬ core.Poisoned
  state : core.machine.state ≠ .inquiry
  allocations : core.allocations = []
  horizon : core.horizon = []

section Client

variable {core : SessionCore} {input seg rest : Bytes} {parsed : ServerLine}
  {machine : ClientMachine}

theorem Channel.Ideal.withBuffer {ch : Channel} (h : Ideal ch input) (buffer : LineBuffer) :
    Ideal { ch with line := buffer } input := by
  obtain ⟨reads, line, unread, trace, rfl, hreads, hunread, hinput⟩ := h
  exact ⟨reads, buffer, unread, trace, rfl, hreads, hunread, hinput⟩

/-- A line that is well formed and wanted is read. -/
theorem Expecting.read (h : Expecting core (seg ++ rest)) (hw : Wired seg parsed)
    (hreceive : core.machine.receive parsed.kind = (.ok (), machine)) :
    ∃ received ch held, SessionCore.read core = (.ok received, { core with
        channel := ch, machine := machine, log := core.log ++ finals received }) ∧
      Ideal ch rest ∧ ch.receivedLine = some held ∧ Presents parsed received held ∧
      Advances core.channel seg ch := by
  obtain ⟨ch, hline, hideal, hholds, hadvances⟩ := h.ideal.readSegment hw.terminated hw.fits
  rcases @classify_cases _ { core with channel := ch, ioUncertain := true } hholds with
    ⟨parsed', received, buffer, held, machine', hparse, hreceive', hclass, hbuffer, hpresents⟩ |
    ⟨hrefused, -⟩
  · obtain rfl := Outcome.ok.inj (hw.parses.symm.trans hparse)
    obtain ⟨-, rfl⟩ := Prod.mk.inj (hreceive.symm.trans hreceive')
    refine ⟨received, { ch with line := buffer }, held, ?_, hideal.withBuffer buffer, hbuffer,
      hpresents, hadvances⟩
    rw [read_ok h.live (readBody_ok hline hclass), logFinal_eq, certain_of_live h.live]
    rfl
  · exact absurd hreceive (hrefused parsed machine hw.parses hw.decodes)

/-- How many lines may be skipped does not matter, if there are not that many. -/
theorem readEvent_fuel {fuel fuel' : ℕ} (hstanding : Standing core.channel)
    (hfuel : core.channel.supply < fuel) (hfuel' : core.channel.supply < fuel') :
    Transaction.readEvent fuel core = Transaction.readEvent fuel' core := by
  induction fuel generalizing core fuel' with
  | zero => exact absurd hfuel (Nat.not_lt_zero _)
  | succ fuel ih =>
      cases fuel' with
      | zero => exact absurd hfuel' (Nat.not_lt_zero _)
      | succ fuel' =>
          rw [Transaction.readEvent, Transaction.readEvent]
          rcases hread : SessionCore.read core with ⟨o, core₁⟩
          rcases o.ok_or_failed with ⟨received, rfl⟩ | ho
          · rw [Action.bind_ok hread, Action.bind_ok hread]
            by_cases hempty : received.kind = .empty
            · have hlive : ¬ core.Poisoned := by
                intro hpoisoned
                rw [hpoisoned.read] at hread
                exact absurd (Prod.mk.inj hread).1 (by simp)
              obtain ⟨rs, -, hend⟩ := (read_cases hstanding hlive).elim hread
              cases hend with
              | took seg parsed t =>
                  rw [if_neg (by simpa using hempty), if_neg (by simpa using hempty)]
                  exact ih t.standing
                    (Nat.lt_of_lt_of_le t.supply (Nat.le_of_lt_succ hfuel))
                    (Nat.lt_of_lt_of_le t.supply (Nat.le_of_lt_succ hfuel'))
            · rw [if_pos hempty, if_pos hempty]
          · rw [Action.bind_failed hread ho, Action.bind_failed hread ho]

/-- How the transaction remembers a line. -/
def settled (parsed : ServerLine) : Completion :=
  if parsed.kind = .ok ∨ parsed.kind = .err then completed parsed.code else .pending

theorem completionOf_presents {received : Received} {held : Bytes}
    (h : Presents parsed received held) :
    Transaction.completionOf received .pending = settled parsed := by
  unfold Transaction.completionOf settled
  rw [h.kind, h.code]
  split
  · cases parsed.code <;> rfl
  · rfl

/-- What the reader of a line leaves as it was. -/
structure Steady (core : SessionCore) (machine : ClientMachine) (rest : Bytes)
    (core' : SessionCore) : Prop where
  ideal : Ideal core'.channel rest
  machine : core'.machine = machine
  certain : core'.ioUncertain = false
  allocations : core'.allocations = []
  horizon : core'.horizon = []
  sensitivity : core'.sensitivity = core.sensitivity
  written : written core'.channel.trace = written core.channel.trace

theorem Expecting.next (h : Expecting core (seg ++ rest)) (hw : Wired seg parsed)
    (hreceive : core.machine.receive parsed.kind = (.ok (), machine)) (hempty : parsed ≠ .empty) :
    ∃ event core', Transaction.next (core, .pending) = (.ok (some event), (core', settled parsed)) ∧
      told core.sensitivity parsed = some event ∧ Steady core machine rest core' ∧
      Advances core.channel seg core'.channel := by
  obtain ⟨received, ch, held, hread, hideal, hheld, hpresents, hadvances⟩ := h.read hw hreceive
  have hkind : parsed.kind ≠ .empty := by
    intro hkind
    cases parsed with
    | empty => exact hempty rfl
    | _ => exact absurd hkind (by simp [ServerLine.kind])
  have hloop : Transaction.readEvent (core.channel.supply + 1) core = (.ok received, { core with
      channel := ch, machine := machine, log := core.log ++ finals received }) := by
    rw [Transaction.readEvent, Action.bind_ok hread, if_pos (by rw [hpresents.kind]; exact hkind)]
    rfl
  rcases @makeEvent_told held parsed received { core with
      channel := ch, machine := machine, log := core.log ++ finals received } hheld hpresents hkind
    with ⟨event, allocations, horizon, hmake, htold, hallocations, hhorizon⟩ |
      ⟨keyword, args, rfl, e, -, -, hwhy, -⟩
  · have hcertain := certain_of_live h.live
    refine ⟨event, { core with
        channel := ch, machine := machine, log := core.log ++ finals received
        allocations := allocations, horizon := horizon }, ?_, htold,
      ⟨hideal, rfl, hcertain, hallocations h.allocations, hhorizon h.horizon, rfl,
        hadvances.written⟩, hadvances⟩
    rw [next_of_read h.live h.state hloop hmake, completionOf_presents hpresents]
  · -- memory and time suffice, and the line is short enough for the guard
    have hfields := parseServerLine_fields hw.parses (Or.inr rfl)
    have hshort : (stripTerminator seg).length ≤ seg.length := by
      rw [stripTerminator_eq_take]
      exact List.length_take_le' _ _
    have hfits := hw.fits
    rcases hwhy with ⟨hwhy, -⟩ | ⟨hwhy, -⟩ | hwhy
    · have hnil : core.allocations.headD false = true := hwhy
      rw [h.allocations] at hnil
      exact absurd hnil (by simp)
    · have hnil : core.horizon.headD false = true := hwhy
      rw [h.horizon] at hnil
      exact absurd hnil (by simp)
    · rw [List.length_append] at hwhy
      omega

theorem next_eq_readNext (hlive : ¬ core.Poisoned) (hstate : core.machine.state ≠ .inquiry) :
    Transaction.next (core, .pending) = Transaction.readNext (core, .pending) := by
  have hrefuse : Transaction.refuseInquiry core = (.ok (), core) := if_neg hstate
  have hcheck' : onCore SessionCore.check (core, Completion.pending) =
      (.ok (), (core, .pending)) := Action.zoom_apply (check_ok hlive)
  have hrefuse' : onCore Transaction.refuseInquiry (core, Completion.pending) =
      (.ok (), (core, .pending)) := Action.zoom_apply hrefuse
  rw [Transaction.next, Action.bind_ok hcheck', Action.bind_ok hrefuse',
    Action.bind_ok (Action.get_apply _), if_neg (by simp)]

theorem Steady.live {core' : SessionCore} (h : Steady core machine rest core')
    (hlive : machine.state ≠ .invalid ∧ machine.state ≠ .closed) : ¬ core'.Poisoned := by
  rw [← h.machine] at hlive
  exact live_of_certain h.certain hlive

/-- An empty line is passed over. -/
theorem Expecting.skip (h : Expecting core (seg ++ rest)) (hw : Wired seg .empty)
    (hreceive : core.machine.receive .empty = (.ok (), machine)) :
    ∃ core', Transaction.next (core, .pending) = Transaction.next (core', .pending) ∧
      Steady core machine rest core' ∧ Advances core.channel seg core'.channel := by
  obtain ⟨received, ch, held, hread, hideal, hheld, hpresents, hadvances⟩ := h.read hw hreceive
  have hkind : received.kind = .empty := hpresents.kind
  obtain ⟨core', hcore⟩ : ∃ core' : SessionCore, core' = { core with
      channel := ch, machine := machine, log := core.log ++ finals received } := ⟨_, rfl⟩
  rw [← hcore] at hread
  have hcertain := certain_of_live h.live
  have hsteady : Steady core machine rest core' := by
    subst hcore
    exact ⟨hideal, rfl, hcertain, h.allocations, h.horizon, rfl, hadvances.written⟩
  have hadvances' : Advances core.channel seg core'.channel := by
    subst hcore
    exact hadvances
  obtain rfl := ClientMachine.receive_empty hreceive
  have hlive' : ¬ core'.Poisoned := by
    apply hsteady.live
    exact ⟨fun hstate => h.live (Or.inr (Or.inl hstate)),
      fun hstate => h.live (Or.inr (Or.inr hstate))⟩
  have hstate' : core'.machine.state ≠ .inquiry := by
    rw [hsteady.machine]
    exact h.state
  -- the loop over empty lines goes on where it would start for the next line
  have hsupply := h.ideal.supply
  have hsupply' := hsteady.ideal.supply
  have hpos := hw.terminated.length_pos
  rw [List.length_append] at hsupply
  have hloop : Transaction.readEvent (core.channel.supply + 1) core =
      Transaction.readEvent (core'.channel.supply + 1) core' := by
    rw [Transaction.readEvent, Action.bind_ok hread, if_neg (by simpa using hkind)]
    exact readEvent_fuel hsteady.ideal.standing (by omega) (Nat.lt_succ_self _)
  have hzoom : onCore (Transaction.readEvent (core.channel.supply + 1)) (core, Completion.pending) =
      onCore (Transaction.readEvent (core'.channel.supply + 1)) (core', Completion.pending) := by
    simp only [onCore, Action.zoom, hloop]
  refine ⟨core', ?_, hsteady, hadvances'⟩
  rw [next_eq_readNext h.live h.state, next_eq_readNext hlive' hstate', Transaction.readNext,
    Action.bind_ok (Action.get_apply _), Action.bind_ok (Action.get_apply _)]
  simp only [bind, Action.bind, hzoom]

end Client

/-! ## §3  The loop -/

section Loop

variable {limits : CollectLimits} {secret : Bool} {c c' : Collecting} {fuel : ℕ}
  {s s' : SessionCore × Completion} {event : Event}

theorem collectLoop_limit {e : ClientError} (hnext : Transaction.next s = (.ok (some event), s'))
    (htake : c.take limits secret event = .err e) :
    collectLoop limits secret (fuel + 1) c s = (.err e, dropEvent event s') := by
  have hstop : Action.onError (dropEvent event) (Action.lift (c.take limits secret event)) s' =
      (.err e, dropEvent event s') := by
    rw [Action.onError, Action.lift_apply, htake]
  rw [collectLoop, Action.bind_ok hnext]
  show (Action.onError (dropEvent event) (Action.lift (c.take limits secret event)) >>= _) s' = _
  rw [Action.bind_failed hstop (by simp)]
  rfl

/-- What the loop does with an event that was stored. -/
def proceed (limits : CollectLimits) (secret : Bool) (fuel : ℕ) (c : Collecting) :
    Event → Action (SessionCore × Completion) ClientError (Collecting × Bool)
  | .inquire inquiry => do
      onCore (Inquiry.finish true inquiry)
      collectLoop limits secret fuel c
  | .finished _ _ => pure (c, true)
  | _ => collectLoop limits secret fuel c

theorem collectLoop_taken (hnext : Transaction.next s = (.ok (some event), s'))
    (htake : c.take limits secret event = .ok c') :
    collectLoop limits secret (fuel + 1) c s = proceed limits secret fuel c' event s' := by
  have hgo : Action.onError (dropEvent event) (Action.lift (c.take limits secret event)) s' =
      (.ok c', s') := by
    apply Action.onError_ok
    rw [Action.lift_apply, htake]
  rw [collectLoop, Action.bind_ok hnext]
  show (Action.onError (dropEvent event) (Action.lift (c.take limits secret event)) >>= _) s' = _
  rw [Action.bind_ok hgo]
  cases event <;> rfl

/-- The loop depends on the session through `next` alone. -/
theorem collectLoop_congr (h : Transaction.next s = Transaction.next s') :
    collectLoop limits secret (fuel + 1) c s = collectLoop limits secret (fuel + 1) c s' := by
  simp only [collectLoop, bind, Action.bind, h]

/-- The states of a machine between the lines of a response. -/
def Working (machine : ClientMachine) : Prop :=
  machine.state = .command ∨ machine.state = .awaitFinal

theorem Working.receive {machine machine' : ClientMachine} {kind : LineKind} (h : Working machine)
    (hok : machine.receive kind = (.ok (), machine')) :
    (kind = .ok ∨ kind = .err → machine'.state = .ready) ∧
    (kind = .inquire → machine'.state = .inquiry) ∧
    (kind ≠ .ok → kind ≠ .err → kind ≠ .inquire → machine' = machine) := by
  obtain ⟨state, origin⟩ := machine
  rcases h with rfl | rfl
  · unfold ClientMachine.receive at hok
    cases kind <;> simp at hok <;> subst hok <;> simp
  · unfold ClientMachine.receive at hok
    cases kind <;> simp at hok
    case err =>
      split at hok
      · simp at hok
      · obtain rfl : ClientMachine.mk ClientState.ready origin = machine' := by simpa using hok
        simp
    all_goals
      subst hok
      simp

theorem Wired.weight_le {seg : Bytes} {parsed : ServerLine} (h : Wired seg parsed) :
    parsed.weight ≤ usizeMax := by
  have hline : (stripTerminator seg).length ≤ maxLineBytes := by
    rw [stripTerminator_eq_take]
    exact Nat.le_trans (List.length_take_le' _ _) h.fits
  obtain ⟨before, hbefore⟩ := parseServerLine_text h.parses
  have htext : parsed.text.length ≤ (stripTerminator seg).length := by
    rw [hbefore, List.length_append]
    omega
  have hmax : maxLineBytes + 1 ≤ usizeMax := by decide
  cases parsed with
  | data text =>
      obtain ⟨bytes, hdecode⟩ := Option.isSome_iff_exists.mp h.decodes
      have hdecode' : decodeRef text = some bytes := hdecode
      have hle := decodeRef_length hdecode'
      have htext' : text.length ≤ (stripTerminator seg).length := htext
      simp only [ServerLine.weight, hdecode', Option.getD_some]
      omega
  | status keyword args =>
      have hfields := parseServerLine_fields h.parses (Or.inl rfl)
      simp only [ServerLine.weight]
      omega
  | comment text =>
      have htext' : text.length ≤ (stripTerminator seg).length := htext
      simp only [ServerLine.weight]
      omega
  | _ => exact Nat.zero_le _

/-- The line that cancels an inquiry. -/
def canLine : Bytes := asBytes "CAN\n"

/-- One event: a limit is broken, or the line is stored. -/
theorem Expecting.round {core : SessionCore} {seg rest : Bytes} {parsed : ServerLine}
    {machine : ClientMachine} {seen : List ServerLine} (h : Expecting core (seg ++ rest))
    (hw : Wired seg parsed) (hreceive : core.machine.receive parsed.kind = (.ok (), machine))
    (hempty : parsed ≠ .empty) (hstores : Stores limits secret c seen)
    (hroom : totalWeight seen ≤ limits.maxBytes) (fuel : ℕ) :
    (∃ e s, collectLoop limits secret (fuel + 1) c (core, .pending) = (.err (.limit e), s) ∧
      ∀ lines, firstLimit limits (eventLines seen).length (totalWeight seen) (parsed :: lines) =
        some e) ∨
    (∃ c' event core', collectLoop limits secret (fuel + 1) c (core, .pending) =
        proceed limits secret fuel c' event (core', settled parsed) ∧
      told core.sensitivity parsed = some event ∧ Steady core machine rest core' ∧
      Stores limits secret c' (seen ++ [parsed]) ∧
      totalWeight (seen ++ [parsed]) ≤ limits.maxBytes ∧ ∀ lines,
      firstLimit limits (eventLines seen).length (totalWeight seen) (parsed :: lines) =
        firstLimit limits (eventLines (seen ++ [parsed])).length (totalWeight (seen ++ [parsed]))
          lines) := by
  obtain ⟨event, core', hnext, htold, hsteady, -⟩ := h.next hw hreceive hempty
  rcases hstores.take htold hw.weight_le hroom with
    ⟨e, htake, hlimit⟩ | ⟨c', htake, hstores', hroom', hlimit⟩
  · exact Or.inl ⟨e, _, collectLoop_limit hnext htake, hlimit⟩
  · exact Or.inr ⟨c', event, core', collectLoop_taken hnext htake, htold, hsteady, hstores',
      hroom', hlimit⟩

theorem Steady.expecting {core core' : SessionCore} {machine : ClientMachine} {rest : Bytes}
    (h : Steady core machine rest core') (hworking : Working machine) : Expecting core' rest := by
  refine ⟨h.ideal, h.live ?_, ?_, h.allocations, h.horizon⟩
  · rcases hworking with hstate | hstate <;> simp [hstate]
  · rw [h.machine]
    rcases hworking with hstate | hstate <;> simp [hstate]

/-- Where the loop ends after the lines of a whole response. -/
structure Gathered (limits : CollectLimits) (secret : Bool) (core : SessionCore)
    (seen lines : List ServerLine) (rest : Bytes) (c : Collecting) (core' : SessionCore) : Prop where
  stores : Stores limits secret c (seen ++ lines)
  ideal : Ideal core'.channel rest
  usable : core'.isUsable = true
  cancelled : written core'.channel.trace =
    written core.channel.trace ++ (List.replicate (inquiries lines) canLine).flatten

/-- How the loop ends when the rest of a response is `lines`. -/
structure LoopEnds (limits : CollectLimits) (secret : Bool) (fuel : ℕ) (c : Collecting)
    (core : SessionCore) (seen lines : List ServerLine) (code : Option UInt32) (rest : Bytes) :
    Prop where
  broken : ∀ e, firstLimit limits (eventLines seen).length (totalWeight seen) lines = some e →
    ∃ s, collectLoop limits secret fuel c (core, .pending) = (.err (.limit e), s)
  done : firstLimit limits (eventLines seen).length (totalWeight seen) lines = none →
    ∃ c' core', collectLoop limits secret fuel c (core, .pending) =
        (.ok (c', true), (core', completed code)) ∧
      Gathered limits secret core seen lines rest c' core'

section Ends

variable {core core' : SessionCore} {seen lines : List ServerLine} {line : ServerLine}
  {code : Option UInt32} {rest : Bytes} {fuel' : ℕ}

theorem LoopEnds.stop {e : LimitError} {s : SessionCore × Completion}
    (hrun : collectLoop limits secret fuel c (core, .pending) = (.err (.limit e), s))
    (hlimit : firstLimit limits (eventLines seen).length (totalWeight seen) lines = some e) :
    LoopEnds limits secret fuel c core seen lines code rest := by
  constructor
  · intro e' he'
    obtain rfl := Option.some.inj (hlimit.symm.trans he')
    exact ⟨s, hrun⟩
  · intro hnone
    exact absurd (hlimit.symm.trans hnone) (by simp)

/-- A round that goes on, having cancelled the inquiry of its line. -/
theorem LoopEnds.cons (h : LoopEnds limits secret fuel' c' core' (seen ++ [line]) lines code rest)
    (hrun : collectLoop limits secret fuel c (core, .pending) =
      collectLoop limits secret fuel' c' (core', .pending))
    (hlimit : firstLimit limits (eventLines seen).length (totalWeight seen) (line :: lines) =
      firstLimit limits (eventLines (seen ++ [line])).length (totalWeight (seen ++ [line])) lines)
    (hwritten : written core'.channel.trace =
      written core.channel.trace ++ (List.replicate (inquiries [line]) canLine).flatten) :
    LoopEnds limits secret fuel c core seen (line :: lines) code rest := by
  constructor
  · rw [hlimit, hrun]
    exact h.broken
  · rw [hlimit, hrun]
    intro hnone
    obtain ⟨c₁, core₁, hdone, g⟩ := h.done hnone
    refine ⟨c₁, core₁, hdone, ?_, g.ideal, g.usable, ?_⟩
    · have hstores := g.stores
      rwa [List.append_assoc] at hstores
    · have hsum : inquiries (line :: lines) = inquiries [line] + inquiries lines :=
        @List.countP_append _ _ [line] lines
      rw [g.cancelled, hwritten, hsum, List.replicate_add, List.flatten_append, List.append_assoc]

theorem LoopEnds.final {seg : Bytes} {machine : ClientMachine} (hworking : Working core.machine)
    (h : Expecting core (seg ++ rest)) (hw : Wired seg line)
    (hreceive : core.machine.receive line.kind = (.ok (), machine))
    (hfinal : line.kind = .ok ∨ line.kind = .err) (hstores : Stores limits secret c seen)
    (hroom : totalWeight seen ≤ limits.maxBytes) :
    LoopEnds limits secret (fuel + 1) c core seen [line] line.code rest := by
  have hempty : line ≠ .empty := by
    rintro rfl
    exact absurd hfinal (by simp [ServerLine.kind])
  have hready := (hworking.receive hreceive).1 hfinal
  -- the final line is an event like any other and may break a limit
  rcases h.round hw hreceive hempty hstores hroom fuel with
    ⟨e, s, hrun, hlimit⟩ | ⟨c', event, core', hrun, htold, hsteady, hstores', -, hlimit⟩
  · exact .stop hrun (hlimit [])
  constructor
  · rw [hlimit []]
    simp [firstLimit]
  · intro _
    refine ⟨c', core', ?_, hstores', hsteady.ideal, ?_, ?_⟩
    · have hsettled : settled line = completed line.code := if_pos hfinal
      rw [hrun, hsettled]
      cases line with
      | ok text =>
          obtain rfl := Option.some.inj htold
          rfl
      | err code text =>
          obtain rfl := Option.some.inj htold
          rfl
      | _ => exact absurd hfinal (by simp [ServerLine.kind])
    · rw [isUsable, hsteady.certain, hsteady.machine, hready]
      rfl
    · have hnone : inquiries [line] = 0 := by
        rcases hfinal with hkind | hkind <;> simp [inquiries, hkind]
      rw [hsteady.written, hnone]
      simp

/-- The guard of an inquiry, as `next` has made it. -/
def asked (keyword : String) (args : Bytes) : Inquiry :=
  ⟨asBytes keyword ++ args, (asBytes keyword).length, 0, false⟩

/-- `CAN` is written, and the machine waits for the final response. -/
theorem Steady.cancel {machine : ClientMachine} {input : Bytes}
    (h : Steady core machine input core') (hasked : machine.state = .inquiry)
    (inquiry : Inquiry) :
    ∃ core'', Inquiry.finish true inquiry core' = (.ok (), core'') ∧
      Steady core'' { machine with state := .awaitFinal } input core'' ∧
      Channel.written core''.channel.trace = Channel.written core.channel.trace ++ canLine ∧
      core''.channel.trace = core'.channel.trace ++ [.wrote canLine] ∧
      core''.channel.unreadBytes = core'.channel.unreadBytes := by
  have hlive : ¬ core'.Poisoned := h.live (by simp [hasked])
  obtain ⟨ch, hcancel, hideal, htrace, hunread⟩ := @finishInquiry_ideal core' input inquiry h.ideal
    hlive (by rw [h.machine]; exact hasked) true
  rw [h.machine] at hcancel
  refine ⟨_, hcancel, ⟨hideal, rfl, h.certain, h.allocations, h.horizon, rfl, rfl⟩, ?_, htrace,
    hunread⟩
  show Channel.written ch.trace = _
  rw [htrace, written_append, written_wrote, h.written]
  rfl

/-- What is neither final nor an inquiry only fills the containers. -/
theorem proceed_plain {event : Event} {sensitivity : Sensitivity}
    (htold : told sensitivity line = some event) (hok : line.kind ≠ .ok) (herr : line.kind ≠ .err)
    (hinquire : line.kind ≠ .inquire) (s : SessionCore × Completion) :
    proceed limits secret fuel c event s = collectLoop limits secret fuel c s := by
  cases line with
  | ok text => exact absurd rfl hok
  | err code text => exact absurd rfl herr
  | inquire keyword args => exact absurd rfl hinquire
  | empty => exact absurd htold (by simp [told])
  | data text =>
      obtain ⟨bytes, -, rfl⟩ := Option.map_eq_some_iff.mp htold
      rfl
  | status keyword args =>
      obtain rfl := Option.some.inj htold
      rfl
  | comment text =>
      obtain rfl := Option.some.inj htold
      rfl
  | end_ =>
      obtain rfl := Option.some.inj htold
      rfl

end Ends

/-- The loop over a whole response. The induction follows the machine through the
lines; `seen` is what the containers hold already. -/
theorem collectLoop_spec {machine : ClientMachine} {lines : List ServerLine}
    {code : Option UInt32} (hcomplete : Completes machine lines code) (hworking : Working machine) :
    ∀ {segs : List Bytes} {core : SessionCore} {seen : List ServerLine} {c : Collecting} {fuel : ℕ}
      {rest : Bytes}, List.Forall₂ Wired segs lines → core.machine = machine →
      Expecting core (segs.flatten ++ rest) → Stores limits secret c seen →
      totalWeight seen ≤ limits.maxBytes → lines.length < fuel →
      LoopEnds limits secret fuel c core seen lines code rest := by
  induction hcomplete with
  | @final machine machine' line hfinal hreceive =>
      rintro segs core seen c (_ | fuel) rest hwired rfl hexpecting hstores hroom hfuel
      · exact absurd hfuel (Nat.not_lt_zero _)
      obtain ⟨seg, segs, hw, hnil, rfl⟩ := List.forall₂_cons_right_iff.mp hwired
      obtain rfl := List.forall₂_nil_right_iff.mp hnil
      have hinput : Expecting core (seg ++ rest) := by simpa using hexpecting
      exact .final hworking hinput hw hreceive hfinal hstores hroom
  | @cancel machine machine' machine'' keyword args lines code hreceive hfinish _ ih =>
      rintro segs core seen c (_ | fuel) rest hwired rfl hexpecting hstores hroom hfuel
      · exact absurd hfuel (Nat.not_lt_zero _)
      obtain ⟨seg, segs, hw, hwired', rfl⟩ := List.forall₂_cons_right_iff.mp hwired
      have hinput : Expecting core (seg ++ (segs.flatten ++ rest)) := by simpa using hexpecting
      rcases hinput.round hw hreceive (by simp) hstores hroom fuel with
        ⟨e, s, hrun, hlimit⟩ | ⟨c', event, core', hrun, htold, hsteady, hstores', hroom', hlimit⟩
      · exact .stop hrun (hlimit lines)
      -- the inquiry is cancelled before the next line is read
      have hasked := (hworking.receive hreceive).2.1 rfl
      obtain rfl : { machine' with state := .awaitFinal } = machine'' := by
        simpa [ClientMachine.finishInquiry, hasked] using hfinish
      obtain rfl := Option.some.inj htold
      obtain ⟨core'', hcancel, hnow, hwritten, -⟩ := hsteady.cancel hasked (asked keyword args)
      have hrest := ih (Or.inr rfl) hwired' hnow.machine (hnow.expecting (Or.inr rfl)) hstores'
        hroom' (Nat.lt_of_succ_lt_succ hfuel)
      apply hrest.cons _ (hlimit lines)
      · rw [hwritten]
        simp [inquiries, ServerLine.kind]
      · rw [hrun]
        show (onCore (Inquiry.finish true (asked keyword args)) >>= fun _ =>
          collectLoop limits secret fuel c') (core', Completion.pending) = _
        rw [Action.bind_ok (onCore_ok hcancel)]
  | @line machine machine' line lines code hok herr hinquire hreceive _ ih =>
      rintro segs core seen c (_ | fuel) rest hwired rfl hexpecting hstores hroom hfuel
      · exact absurd hfuel (Nat.not_lt_zero _)
      obtain ⟨seg, segs, hw, hwired', rfl⟩ := List.forall₂_cons_right_iff.mp hwired
      have hinput : Expecting core (seg ++ (segs.flatten ++ rest)) := by simpa using hexpecting
      obtain rfl := (hworking.receive hreceive).2.2 hok herr hinquire
      have hnone : inquiries [line] = 0 := by simp [inquiries, hinquire]
      by_cases hempty : line = .empty
      · -- an empty line costs a round of `next`, but not of the loop
        subst hempty
        obtain ⟨core', hsame, hsteady, -⟩ := hinput.skip hw hreceive
        have htotal : totalWeight (seen ++ [.empty]) = totalWeight seen := by
          rw [totalWeight_append]
          rfl
        have hevents : eventLines (seen ++ [.empty]) = eventLines seen := by
          rw [eventLines_append, eventLines_empty]
          exact List.append_nil _
        have hrest := ih hworking hwired' hsteady.machine (hsteady.expecting hworking)
          hstores.empty (by rw [htotal]; exact hroom) (Nat.lt_of_succ_lt hfuel)
        apply hrest.cons (collectLoop_congr hsame)
        · rw [hevents, htotal, firstLimit, if_pos rfl]
        · rw [hsteady.written, hnone]
          simp
      · rcases hinput.round hw hreceive hempty hstores hroom fuel with
          ⟨e, s, hrun, hlimit⟩ | ⟨c', event, core', hrun, htold, hsteady, hstores', hroom', hlimit⟩
        · exact .stop hrun (hlimit lines)
        have hrest := ih hworking hwired' hsteady.machine (hsteady.expecting hworking) hstores'
          hroom' (Nat.lt_of_succ_lt_succ hfuel)
        apply hrest.cons _ (hlimit lines)
        · rw [hsteady.written, hnone]
          simp
        · have hsettled : settled line = .pending := if_neg (by simp [hok, herr])
          rw [hrun, hsettled]
          exact proceed_plain htold hok herr hinquire _

end Loop

/-! ## §4  Commands -/

section Command

variable {command : Command} {core sent : SessionCore} {sensitivity : Sensitivity}

/-- A command that was sent could have been sent with either sensitivity. -/
theorem commandWith_inv (h : commandWith command sensitivity core = (.ok (), sent)) :
    ¬ sent.Poisoned ∧ sent.machine.state = .command ∧ ∀ other,
      commandWith command other core = (.ok (), { sent with sensitivity := other }) := by
  unfold commandWith at h
  obtain ⟨_, core₁, hcheck, h⟩ := Action.bind_eq_ok.mp h
  obtain ⟨_, core₂, hrequire, h⟩ := Action.bind_eq_ok.mp h
  obtain ⟨bytes, core₃, hbytes, h⟩ := Action.bind_eq_ok.mp h
  obtain ⟨seen, core₄, hget, h⟩ := Action.bind_eq_ok.mp h
  obtain ⟨_, core₅, hdeadline, h⟩ := Action.bind_eq_ok.mp h
  obtain ⟨_, core₆, hdrain, h⟩ := Action.bind_eq_ok.mp h
  rw [Action.bind_ok (Action.modify_apply _ _)] at h
  obtain ⟨_, core₇, hbegin, h⟩ := Action.bind_eq_ok.mp h
  rw [Action.bind_ok (Action.modify_apply _ _)] at h
  obtain ⟨hlive, ch, hwrite, rfl⟩ := writeAt_inv h
  -- the sensitivity is set after the drain and never read by what follows
  have hready : ({ core₆ with sensitivity := sensitivity } : SessionCore).machine.state = .ready :=
    beginCommand_inv hbegin
  have hcommand := beginCommand_ready { core₆ with sensitivity := sensitivity } hready
  obtain ⟨-, rfl⟩ := Prod.mk.inj (hcommand.symm.trans hbegin)
  refine ⟨hlive, rfl, fun other => ?_⟩
  rw [commandWith, Action.bind_ok hcheck, Action.bind_ok hrequire, Action.bind_ok hbytes,
    Action.bind_ok hget, Action.bind_ok hdeadline, Action.bind_ok hdrain,
    Action.bind_ok (Action.modify_apply _ _),
    Action.bind_ok (beginCommand_ready { core₆ with sensitivity := other } hready),
    Action.bind_ok (Action.modify_apply _ _)]
  exact @writeAt_ok { core₆ with
    sensitivity := other
    machine := { core₆.machine with state := .command }
    log := core₆.log ++ [.command command] } _ _ hlive hwrite

end Command

/-! ## §5  Whole transactions -/

/-- What a collected value shows. -/
def SecretResponse.reveal (response : SecretResponse) : Response :=
  ⟨response.data.bytes, response.statuses, response.comments⟩

/-- What collecting a complete response amounts to. `sent` is the session after
the command. -/
structure Exact {α : Type} (limits : CollectLimits) (lines : List ServerLine)
    (code : Option UInt32) (sent : SessionCore) (reveal : α → Response)
    (run : Outcome ClientError α × SessionCore) : Prop where
  succeeds : (∃ value, run.1 = .ok value) ↔ code = none ∧ Within limits lines
  response : ∀ value, run.1 = .ok value → reveal value = responseOf lines ∧
    run.2.isUsable = true ∧ written run.2.channel.trace =
      written sent.channel.trace ++ (List.replicate (inquiries lines) canLine).flatten
  remote : Within limits lines → ∀ n, code = some n →
    run.1 = .err (.remote n) ∧ run.2.isUsable = true
  exceeded : ¬ Within limits lines → ¬ Overflows limits lines →
    run.1 = .err (.limit .capacityExceeded)
  overflowed : Overflows limits lines → run.1 = .err (.limit .lengthOverflow)

section Transactions

variable {limits : CollectLimits} {secret : Bool} {core sent : SessionCore} {segs : List Bytes}
  {lines : List ServerLine} {code : Option UInt32} {rest : Bytes} {command : Command}

theorem withCapacity_ok (h : core.allocations = []) (capacity : ℕ) :
    SecretBytes.withCapacity capacity core = (.ok ⟨capacity, [], Nat.zero_le _⟩, core) := by
  have hallocate : Transaction.allocate core = (.ok (), core) := by
    obtain ⟨ch, machine, flag, sensitivity, t, t', m, horizon, allocations, log⟩ := core
    obtain rfl : allocations = [] := h
    rfl
  unfold SecretBytes.withCapacity
  split
  · rfl
  · rw [Action.bind_ok hallocate]
    rfl

theorem wired_length_le (hwired : List.Forall₂ Wired segs lines) :
    lines.length ≤ segs.flatten.length := by
  induction hwired with
  | nil => exact Nat.le_refl _
  | cons hw _ ih =>
      have hpos := hw.terminated.length_pos
      rw [List.length_cons, List.flatten_cons, List.length_append]
      omega

/-- The events of a response, with the containers that the path uses. -/
theorem collectEvents_spec (h : Expecting core (segs.flatten ++ rest))
    (hworking : Working core.machine) (hwired : List.Forall₂ Wired segs lines)
    (hcomplete : Completes core.machine lines code) :
    (∀ e, firstLimit limits 0 0 lines = some e →
      ∃ s, collectEvents limits secret (core, .pending) = (.err (.limit e), s)) ∧
    (firstLimit limits 0 0 lines = none → ∃ c core', collectEvents limits secret (core, .pending) =
        (.ok (c, true), (core', completed code)) ∧
      Gathered limits secret core [] lines rest c core') := by
  -- every round takes a line, and a line has at least one byte
  have hfuel : lines.length < core.channel.supply + 1 := by
    have hle := wired_length_le hwired
    rw [h.ideal.supply, List.length_append]
    omega
  have hstart : collectEvents limits secret (core, .pending) =
      collectLoop limits secret (core.channel.supply + 1)
        (.new ⟨if secret then limits.maxBytes else 0, [], Nat.zero_le _⟩) (core, .pending) := by
    rw [collectEvents, Action.bind_ok (Action.get_apply _),
      Action.bind_ok (onCore_ok (withCapacity_ok h.allocations _))]
  have hstores := @stores_new limits secret ⟨if secret then limits.maxBytes else 0, [],
    Nat.zero_le _⟩ rfl fun hsecret => if_pos hsecret
  have hends := collectLoop_spec hcomplete hworking hwired rfl h hstores (Nat.zero_le _) hfuel
  rw [hstart]
  exact ⟨hends.broken, hends.done⟩

theorem finish_completed (husable : core.isUsable = true) (completion : Completion) :
    Transaction.finish completion core = (Transaction.resultOf completion, core) := by
  have hlive := live_of_usable husable
  have hready : core.machine.state = .ready := by
    simp only [isUsable, decide_eq_true_eq] at husable
    exact husable.2
  have hrun : (SessionCore.check >>= fun _ => Action.lift (Transaction.resultOf completion) :
      Action SessionCore ClientError Unit) core = (Transaction.resultOf completion, core) := by
    rw [Action.bind_ok (check_ok hlive)]
    rfl
  rw [Transaction.finish, hrun]
  show (_, Transaction.drop core) = _
  rw [Transaction.drop, if_neg (by simp [certain_of_live hlive, hready])]

/-- A limit error drops the transaction; otherwise `finish` has the last word. -/
theorem collectTransaction_spec (h : Expecting core (segs.flatten ++ rest))
    (hworking : Working core.machine) (hwired : List.Forall₂ Wired segs lines)
    (hcomplete : Completes core.machine lines code) :
    (∀ e, firstLimit limits 0 0 lines = some e →
      ∃ core', collectTransaction limits secret core = (.err (.limit e), core')) ∧
    (firstLimit limits 0 0 lines = none → ∃ c core', collectTransaction limits secret core =
        (do Transaction.resultOf (completed code); .ok (c.collected secret), core') ∧
      Gathered limits secret core [] lines rest c core') := by
  obtain ⟨hbroken, hdone⟩ :=
    @collectEvents_spec limits secret core segs lines code rest h hworking hwired hcomplete
  constructor
  · intro e he
    obtain ⟨s, hrun⟩ := hbroken e he
    exact ⟨Transaction.drop s.1, by rw [collectTransaction, hrun]⟩
  · intro hnone
    obtain ⟨c, core', hrun, g⟩ := hdone hnone
    refine ⟨c, core', ?_, g⟩
    have hfinish := finish_completed g.usable (completed code)
    rw [collectTransaction, hrun]
    show (Transaction.finish (completed code) >>= fun _ => pure (c.collected secret)) core' = _
    cases code with
    | none =>
        rw [Action.bind_ok hfinish]
        rfl
    | some n =>
        rw [Action.bind_failed hfinish (by simp [completed, Transaction.resultOf])]
        rfl

/-- The first limit that is broken decides, and then the final response. -/
theorem exact_of_firstLimit {α : Type} {reveal : α → Response}
    {run : Outcome ClientError α × SessionCore}
    (hbroken : ∀ e, firstLimit limits 0 0 lines = some e → run.1 = .err (.limit e))
    (hdone : firstLimit limits 0 0 lines = none → ∃ value,
      run.1 = (do Transaction.resultOf (completed code); .ok value) ∧
      reveal value = responseOf lines ∧ run.2.isUsable = true ∧ written run.2.channel.trace =
        written sent.channel.trace ++ (List.replicate (inquiries lines) canLine).flatten) :
    Exact limits lines code sent reveal run := by
  have hwithin := firstLimit_none limits lines
  have hoverflows := firstLimit_overflow limits lines
  -- a value is returned only if no limit was broken on the way
  have hsuccess : ∀ value, run.1 = .ok value → Within limits lines := by
    intro value hok
    rw [← hwithin, Option.eq_none_iff_forall_ne_some]
    intro e he
    rw [hbroken e he] at hok
    exact absurd hok (by simp)
  have hremote : ∀ n, code = some n → ∀ value : α,
      (do Transaction.resultOf (completed code); .ok value) =
        (.err (.remote n) : Outcome ClientError α) := by
    rintro n rfl value
    rfl
  have hvalue : code = none → ∀ value : α,
      (do Transaction.resultOf (completed code); .ok value) =
        (.ok value : Outcome ClientError α) := by
    rintro rfl value
    rfl
  refine ⟨⟨?_, ?_⟩, ?_, ?_, ?_, ?_⟩
  · rintro ⟨value, hok⟩
    have hin := hsuccess value hok
    refine ⟨?_, hin⟩
    obtain ⟨value', hrun, -⟩ := hdone (hwithin.mpr hin)
    cases code with
    | none => rfl
    | some n =>
        rw [hremote n rfl] at hrun
        exact absurd (hrun.symm.trans hok) (by simp)
  · rintro ⟨hcode, hin⟩
    obtain ⟨value, hrun, -⟩ := hdone (hwithin.mpr hin)
    rw [hvalue hcode] at hrun
    exact ⟨value, hrun⟩
  · intro value hok
    obtain ⟨value', hrun, hreveal, husable, hwritten⟩ := hdone (hwithin.mpr (hsuccess value hok))
    cases code with
    | none =>
        obtain rfl := Outcome.ok.inj (hok.symm.trans (hrun.trans (hvalue rfl value')))
        exact ⟨hreveal, husable, hwritten⟩
    | some n =>
        rw [hremote n rfl] at hrun
        exact absurd (hrun.symm.trans hok) (by simp)
  · intro hin n hcode
    obtain ⟨value, hrun, -, husable, -⟩ := hdone (hwithin.mpr hin)
    exact ⟨hrun.trans (hremote n hcode value), husable⟩
  · intro hout hno
    rcases firstLimit_cases limits 0 0 lines with hnone | hlength | hcapacity
    · exact absurd (hwithin.mp hnone) hout
    · exact absurd (hoverflows.mp hlength) hno
    · exact hbroken _ hcapacity
  · intro hover
    exact hbroken _ (hoverflows.mpr hover)

theorem sent_expecting (hsent : commandWith command .public_ core = (.ok (), sent))
    (hideal : Ideal sent.channel (segs.flatten ++ rest)) (hallocations : sent.allocations = [])
    (hhorizon : sent.horizon = []) (sensitivity : Sensitivity) :
    commandWith command sensitivity core = (.ok (), { sent with sensitivity := sensitivity }) ∧
      Expecting { sent with sensitivity := sensitivity } (segs.flatten ++ rest) ∧
      Working sent.machine := by
  obtain ⟨hlive, hstate, hcommand⟩ := commandWith_inv hsent
  refine ⟨hcommand sensitivity, ⟨hideal, hlive, ?_, hallocations, hhorizon⟩, Or.inl hstate⟩
  show sent.machine.state ≠ .inquiry
  rw [hstate]
  simp

/-- Both paths: `unwrap` takes the container of the path out of what the
transaction has collected. -/
theorem exact_of_unwrap {α : Type} {sensitivity : Sensitivity} {reveal : α → Response}
    {unwrap : Collected → Action SessionCore ClientError α}
    (hsent : commandWith command .public_ core = (.ok (), sent))
    (hideal : Ideal sent.channel (segs.flatten ++ rest)) (hallocations : sent.allocations = [])
    (hhorizon : sent.horizon = []) (hwired : List.Forall₂ Wired segs lines)
    (hcomplete : Completes sent.machine lines code)
    (hunwrap : ∀ c core', Stores limits secret c lines → ∃ value,
      unwrap (c.collected secret) core' = (.ok value, core') ∧ reveal value = responseOf lines) :
    Exact limits lines code sent reveal ((do
      commandWith command sensitivity
      unwrap (← collectTransaction limits secret)) core) := by
  obtain ⟨hcommand, hexpecting, hworking⟩ :=
    sent_expecting hsent hideal hallocations hhorizon sensitivity
  obtain ⟨hbroken, hdone⟩ := @collectTransaction_spec limits secret _ segs lines code rest
    hexpecting hworking hwired hcomplete
  rw [Action.bind_ok hcommand]
  apply exact_of_firstLimit
  · intro e he
    obtain ⟨core', hrun⟩ := hbroken e he
    rw [Action.bind_failed hrun (by simp)]
    rfl
  · intro hnone
    obtain ⟨c, core', hrun, g⟩ := hdone hnone
    obtain ⟨value, hvalue, hreveal⟩ := hunwrap c core' g.stores
    refine ⟨value, ?_⟩
    cases code with
    | none =>
        rw [Action.bind_ok hrun, hvalue]
        exact ⟨rfl, hreveal, g.usable, g.cancelled⟩
    | some n =>
        rw [Action.bind_failed hrun (by simp [completed, Transaction.resultOf])]
        exact ⟨rfl, hreveal, g.usable, g.cancelled⟩

theorem collect_spec (hsent : commandWith command .public_ core = (.ok (), sent))
    (hideal : Ideal sent.channel (segs.flatten ++ rest)) (hallocations : sent.allocations = [])
    (hhorizon : sent.horizon = []) (hwired : List.Forall₂ Wired segs lines)
    (hcomplete : Completes sent.machine lines code) :
    Exact limits lines code sent id (collect command limits core) := by
  apply @exact_of_unwrap limits false core sent segs lines code rest command Response .public_ id
    _ hsent hideal hallocations hhorizon hwired hcomplete
  intro c core' hstores
  refine ⟨⟨c.data, c.statuses, c.comments⟩, rfl, ?_⟩
  rw [hstores.data, hstores.statuses, hstores.comments]
  rfl

theorem collectSecret_spec (hsent : commandWith command .public_ core = (.ok (), sent))
    (hideal : Ideal sent.channel (segs.flatten ++ rest)) (hallocations : sent.allocations = [])
    (hhorizon : sent.horizon = []) (hwired : List.Forall₂ Wired segs lines)
    (hcomplete : Completes sent.machine lines code) :
    Exact limits lines code sent SecretResponse.reveal (collectSecret command limits core) := by
  apply @exact_of_unwrap limits true core sent segs lines code rest command SecretResponse .secret
    SecretResponse.reveal _ hsent hideal hallocations hhorizon hwired hcomplete
  intro c core' hstores
  refine ⟨⟨c.secretData, c.statuses, c.comments⟩, rfl, ?_⟩
  rw [SecretResponse.reveal, hstores.secretData, hstores.statuses, hstores.comments]
  rfl

end Transactions

/-! ## §6  Exactness -/

section Results

variable {limits : CollectLimits} {core sent : SessionCore} {segs : List Bytes}
  {lines : List ServerLine} {code : Option UInt32} {rest : Bytes} {command : Command}

/-- **Collection is exact and bounded.** After a command was sent, the lines of one
complete response come in, in pieces of any size, and nothing fails. Then
`collect` returns all of it exactly when the response is `OK` and the totals over
it are within the limits, and has cancelled each inquiry once; `collect_secret`
does the same. A response that ends with `ERR` gives its code. Whatever events
come, the containers never retain more than `max_bytes`. -/
theorem collect_exact (hsent : commandWith command .public_ core = (.ok (), sent))
    (hideal : Ideal sent.channel (segs.flatten ++ rest)) (hallocations : sent.allocations = [])
    (hhorizon : sent.horizon = []) (hwired : List.Forall₂ Wired segs lines)
    (hcomplete : Completes sent.machine lines code) :
    Exact limits lines code sent id (collect command limits core) ∧
    Exact limits lines code sent SecretResponse.reveal (collectSecret command limits core) ∧
    ∀ secret storage c, storage.bytes = [] →
      Relation.ReflTransGen (Collecting.Takes limits secret) (.new storage) c →
      c.retained ≤ limits.maxBytes :=
  ⟨collect_spec hsent hideal hallocations hhorizon hwired hcomplete,
    collectSecret_spec hsent hideal hallocations hhorizon hwired hcomplete,
    fun _ _ _ hempty hreach => retained_le hempty hreach⟩

/-- A command goes out, and the response is still to come. -/
theorem commandWith_ideal {input bytes : Bytes} (hideal : Ideal core.channel input)
    (hempty : core.channel.hasBufferedInput = false) (hlive : ¬ core.Poisoned)
    (hready : core.machine.state = .ready) (hbytes : encoded (encodeCommand command) = .ok bytes)
    (hvalid : validateWireLine bytes = .ok ()) (htimeout : core.commandTimeout ≠ 0)
    (hhorizon : core.horizon = []) (sensitivity : Sensitivity) :
    ∃ ch, commandWith command sensitivity core = (.ok (), { core with
        channel := ch
        sensitivity := sensitivity
        machine := { core.machine with state := .command }
        log := core.log ++ [.command command] }) ∧
      Ideal ch input ∧ ch.trace = core.channel.trace ++ [.wrote bytes] := by
  obtain ⟨ch, hwrite, hideal', htrace, -⟩ := hideal.writeLine hvalid
  refine ⟨ch, ?_, hideal', htrace⟩
  have hdeadline : deadline core.commandTimeout core = (.ok (), core) := by
    obtain ⟨ch, machine, flag, sensitivity, t, t', m, horizon, allocations, log⟩ := core
    obtain rfl : horizon = [] := hhorizon
    exact congrFun (if_neg htimeout) _
  have hdrain : drain (core.channel.supply + 1) core = (.ok (), core) := by
    rw [drain, Action.bind_ok (Action.get_apply core), if_neg (by simp [hempty])]
    rfl
  rw [commandWith, Action.bind_ok (check_ok hlive), Action.bind_ok (requireState_ok hready), hbytes,
    Outcome.mapErr_ok, Action.lift_ok_bind, Action.bind_ok (Action.get_apply core),
    Action.bind_ok hdeadline, Action.bind_ok hdrain, Action.bind_ok (Action.modify_apply _ _),
    Action.bind_ok (beginCommand_ready { core with sensitivity := sensitivity } hready),
    Action.bind_ok (Action.modify_apply _ _)]
  apply @writeAt_ok { core with
    sensitivity := sensitivity
    machine := { core.machine with state := .command }
    log := core.log ++ [.command command] } _ _ _ hwrite
  have hcertain := certain_of_live hlive
  exact live_of_certain hcertain (by simp)

/-- A client that is ready, and what its peer will send. -/
def readyCore (chunks : List Chunk) : SessionCore where
  channel := Channel.new ⟨chunks.map .data, []⟩ []
  machine := ⟨.ready, .greeting⟩
  ioUncertain := false
  sensitivity := .public_
  commandTimeout := 30
  inquiryTimeout := 30
  maxInquiryBytes := 1024
  horizon := []
  allocations := []
  log := []

theorem readyCore_sent (chunks : List Chunk) :
    ∃ sent, commandWith Caller.nop .public_ (readyCore chunks) = (.ok (), sent) ∧
      Ideal sent.channel (chunks.map Chunk.bytes).flatten ∧ sent.allocations = [] ∧
      sent.horizon = [] ∧ sent.machine = ⟨.command, .greeting⟩ := by
  have hlive : ¬ (readyCore chunks).Poisoned := by simp [readyCore, Poisoned]
  obtain ⟨ch, hrun, hideal, -⟩ := @commandWith_ideal (readyCore chunks) Caller.nop _
    (asBytes "NOP\n") (ideal_new chunks) rfl hlive rfl (by decide +kernel) (by decide)
    (by simp [readyCore]) rfl .public_
  exact ⟨_, hrun, hideal, rfl, rfl, rfl⟩

/-- Every kind of line, cut inside an escape and between lines. -/
def mixedChunks : List Chunk :=
  [⟨asBytes "D ab%2", by decide, by decide⟩, ⟨asBytes "5\nS KEY 1\nEND\n\nINQ", by decide, by decide⟩,
    ⟨asBytes "UIRE PIN x\n# c\nOK\n", by decide, by decide⟩]

def mixedSegs : List Bytes :=
  [asBytes "D ab%25\n", asBytes "S KEY 1\n", asBytes "END\n", asBytes "\n", asBytes "INQUIRE PIN x\n",
    asBytes "# c\n", asBytes "OK\n"]

def mixedLines : List ServerLine :=
  [.data (asBytes "ab%25"), .status "KEY" (asBytes "1"), .end_, .empty, .inquire "PIN" (asBytes "x"),
    .comment (asBytes " c"), .ok []]

def mixedLimits : CollectLimits := ⟨10, 6, by decide, by decide, by decide, by decide⟩

theorem mixed_wired : List.Forall₂ Wired mixedSegs mixedLines := by
  refine .cons ⟨⟨asBytes "D ab%25", by decide, rfl⟩, by decide, by decide +kernel, by decide⟩
    (.cons ⟨⟨asBytes "S KEY 1", by decide, rfl⟩, by decide, by decide +kernel, rfl⟩
    (.cons ⟨⟨asBytes "END", by decide, rfl⟩, by decide, by decide +kernel, rfl⟩
    (.cons ⟨⟨[], by decide, rfl⟩, by decide, by decide +kernel, rfl⟩
    (.cons ⟨⟨asBytes "INQUIRE PIN x", by decide, rfl⟩, by decide, by decide +kernel, rfl⟩
    (.cons ⟨⟨asBytes "# c", by decide, rfl⟩, by decide, by decide +kernel, rfl⟩
    (.cons ⟨⟨asBytes "OK", by decide, rfl⟩, by decide, by decide +kernel, rfl⟩ .nil))))))

theorem mixed_completes : Completes ⟨.command, .greeting⟩ mixedLines none :=
  .line (by decide) (by decide) (by decide) rfl (.line (by decide) (by decide) (by decide) rfl
    (.line (by decide) (by decide) (by decide) rfl (.line (by decide) (by decide) (by decide) rfl
    (.cancel rfl rfl (.line (by decide) (by decide) (by decide) rfl
    (.final (Or.inl rfl) rfl))))))

/-- The totals are exactly at the limits. -/
theorem collect_exact_mixed :
    (collect Caller.nop mixedLimits (readyCore mixedChunks)).1 =
      .ok ⟨asBytes "ab%", [("KEY", asBytes "1")], [asBytes " c"]⟩ ∧
    (collectSecret Caller.nop mixedLimits (readyCore mixedChunks)).2.isUsable = true := by
  obtain ⟨sent, hsent, hideal, hallocations, hhorizon, hmachine⟩ := readyCore_sent mixedChunks
  have hinput : (mixedChunks.map Chunk.bytes).flatten = mixedSegs.flatten ++ [] := by decide
  rw [hinput] at hideal
  have hcomplete : Completes sent.machine mixedLines none := by
    rw [hmachine]
    exact mixed_completes
  obtain ⟨hpublic, hsecret, -⟩ := @collect_exact mixedLimits _ sent mixedSegs mixedLines none []
    Caller.nop hsent hideal hallocations hhorizon mixed_wired hcomplete
  have hwithin : Within mixedLimits mixedLines := ⟨by decide, by decide⟩
  constructor
  · obtain ⟨value, hvalue⟩ := hpublic.succeeds.mpr ⟨rfl, hwithin⟩
    rw [hvalue, ← id_eq value, (hpublic.response value hvalue).1]
    decide
  · obtain ⟨value, hvalue⟩ := hsecret.succeeds.mpr ⟨rfl, hwithin⟩
    exact (hsecret.response value hvalue).2.1

/-- `END` any number of times, then `OK`. -/
def floodChunks (n : ℕ) : List Chunk :=
  List.replicate n ⟨asBytes "END\n", by decide, by decide⟩ ++ [⟨asBytes "OK\n", by decide, by decide⟩]

def floodLines (n : ℕ) : List ServerLine := List.replicate n .end_ ++ [.ok []]

/-- No limits that can be asked for are larger. -/
def largestLimits : CollectLimits :=
  ⟨usizeMax, usizeMax, by decide, by decide, Nat.le_refl _, Nat.le_refl _⟩

theorem flood_wired (n : ℕ) :
    List.Forall₂ Wired ((floodChunks n).map Chunk.bytes) (floodLines n) := by
  induction n with
  | zero => exact .cons ⟨⟨asBytes "OK", by decide, rfl⟩, by decide, by decide +kernel, rfl⟩ .nil
  | succ n ih => exact .cons ⟨⟨asBytes "END", by decide, rfl⟩, by decide, by decide +kernel, rfl⟩ ih

theorem flood_completes (n : ℕ) : Completes ⟨.command, .greeting⟩ (floodLines n) none := by
  induction n with
  | zero => exact .final (Or.inl rfl) rfl
  | succ n ih => exact .line (by decide) (by decide) (by decide) rfl ih

theorem flood_events (n : ℕ) : eventLines (floodLines n) = floodLines n := by
  simp [eventLines, floodLines]

theorem flood_length (n : ℕ) : (floodLines n).length = n + 1 := by simp [floodLines]

theorem flood_weight (n k : ℕ) : totalWeight ((floodLines n).take k) = 0 := by
  induction n generalizing k with
  | zero => cases k <;> simp [floodLines, totalWeight, ServerLine.weight]
  | succ n ih =>
      cases k with
      | zero => rfl
      | succ k =>
          show ServerLine.weight .end_ + totalWeight ((floodLines n).take k) = 0
          rw [ih]
          rfl

/-- One event more than the counter can count is not `CapacityExceeded`. -/
theorem flood_overflows {n : ℕ} (h : usizeMax ≤ n) : ∃ sent,
    commandWith Caller.nop .public_ (readyCore (floodChunks n)) = (.ok (), sent) ∧
      Ideal sent.channel (((floodChunks n).map Chunk.bytes).flatten ++ []) ∧
      sent.allocations = [] ∧ sent.horizon = [] ∧
      List.Forall₂ Wired ((floodChunks n).map Chunk.bytes) (floodLines n) ∧
      Completes sent.machine (floodLines n) none ∧ ¬ Within largestLimits (floodLines n) ∧
      (collect Caller.nop largestLimits (readyCore (floodChunks n))).1 =
        .err (.limit .lengthOverflow) := by
  obtain ⟨sent, hsent, hideal, hallocations, hhorizon, hmachine⟩ := readyCore_sent (floodChunks n)
  rw [← List.append_nil ((floodChunks n).map Chunk.bytes).flatten] at hideal
  have hcomplete : Completes sent.machine (floodLines n) none := by
    rw [hmachine]
    exact flood_completes n
  have hmore : usizeMax < (eventLines (floodLines n)).length := by
    rw [flood_events, flood_length]
    exact Nat.lt_succ_of_le h
  have hover : Overflows largestLimits (floodLines n) := by
    refine ⟨rfl, hmore, ?_⟩
    rw [flood_events, flood_weight]
    exact Nat.zero_le _
  have hexact := @collect_spec largestLimits _ sent _ _ _ _ Caller.nop hsent hideal hallocations
    hhorizon (flood_wired n) hcomplete
  exact ⟨sent, hsent, hideal, hallocations, hhorizon, flood_wired n, hcomplete,
    fun hwithin => absurd hwithin.1 (Nat.not_le.mpr hmore), hexact.overflowed hover⟩

theorem collect_flooded : ∃ sent,
    commandWith Caller.nop .public_ (readyCore (floodChunks usizeMax)) = (.ok (), sent) ∧
      Ideal sent.channel (((floodChunks usizeMax).map Chunk.bytes).flatten ++ []) ∧
      sent.allocations = [] ∧ sent.horizon = [] ∧
      List.Forall₂ Wired ((floodChunks usizeMax).map Chunk.bytes) (floodLines usizeMax) ∧
      Completes sent.machine (floodLines usizeMax) none ∧
      ¬ Within largestLimits (floodLines usizeMax) ∧
      (collect Caller.nop largestLimits (readyCore (floodChunks usizeMax))).1 =
        .err (.limit .lengthOverflow) :=
  flood_overflows (Nat.le_refl _)

end Results

end Assuan
