import Assuan.Protocol.State

/-!
# One final response per operation

The machines are driven by arbitrary calls: neither the peer nor the caller is
trusted. Beside a machine run two counters, `begun` for the operations it let
begin and `finals` for the final responses it accepted; the greeting is the one
operation that begins by itself.

What the counters can say is a matter of the phases both machines share. It is
worked out for these first, and each machine is shown to move only as they do.
-/

namespace Assuan

/-! ## §1 Phases and their counters -/

inductive SessionPhase : Type where
  | greeting
  | ready
  | operating
  | inquiry
  | awaitFinal
  | dead
deriving DecidableEq, Repr

/-- A phase, and the one the last inquiry came from. -/
structure View : Type where
  phase : SessionPhase
  origin : SessionPhase
deriving DecidableEq, Repr

/-- A move, with what it adds to `begun` and to `finals`. -/
inductive Moves : View → View → ℕ → ℕ → Prop where
  | stay (v : View) : Moves v v 0 0
  | begins (o : SessionPhase) : Moves ⟨.ready, o⟩ ⟨.operating, o⟩ 1 0
  | greets (o : SessionPhase) : Moves ⟨.greeting, o⟩ ⟨.ready, o⟩ 0 1
  | answers (o : SessionPhase) : Moves ⟨.operating, o⟩ ⟨.ready, o⟩ 0 1
  | drains (o : SessionPhase) : Moves ⟨.awaitFinal, o⟩ ⟨.ready, o⟩ 0 1
  | asks {p : SessionPhase} (o : SessionPhase) (h : p = .greeting ∨ p = .operating) :
      Moves ⟨p, o⟩ ⟨.inquiry, p⟩ 0 0
  | resumes (o : SessionPhase) : Moves ⟨.inquiry, o⟩ ⟨o, o⟩ 0 0
  | cancels (o : SessionPhase) : Moves ⟨.inquiry, o⟩ ⟨.awaitFinal, o⟩ 0 0
  | dies (v : View) (o : SessionPhase) : Moves v ⟨.dead, o⟩ 0 0
  -- a server that refuses its client has sent the final of the greeting
  | rejects (o : SessionPhase) : Moves ⟨.greeting, o⟩ ⟨.dead, o⟩ 0 1
  | rejectsDrained : Moves ⟨.awaitFinal, .greeting⟩ ⟨.dead, .greeting⟩ 0 1

/-- What the counters are in each phase. -/
structure Balanced (v : View) (begun finals : ℕ) : Prop where
  lower : begun ≤ finals
  upper : finals ≤ begun + 1
  greeting : v.phase = .greeting → begun = 0 ∧ finals = 0
  ready : v.phase = .ready → finals = begun + 1
  operating : v.phase = .operating → finals = begun ∧ 1 ≤ begun
  asking : v.phase = .inquiry ∨ v.phase = .awaitFinal → finals = begun ∧
    v.origin = if begun = 0 then .greeting else .operating

theorem Balanced.new : Balanced ⟨.greeting, .greeting⟩ 0 0 :=
  ⟨by simp, by simp, by simp, by simp, by simp, by simp⟩

theorem Balanced.of_dead {o : SessionPhase} {begun finals : ℕ} (hl : begun ≤ finals)
    (hu : finals ≤ begun + 1) : Balanced ⟨.dead, o⟩ begun finals :=
  ⟨hl, hu, by simp, by simp, by simp, by simp⟩

theorem Balanced.of_ready {o : SessionPhase} {begun finals : ℕ} (h : finals = begun + 1) :
    Balanced ⟨.ready, o⟩ begun finals :=
  ⟨by omega, by omega, by simp, fun _ => h, by simp, by simp⟩

/-- **One move keeps the balance.** An inquiry is balanced by its origin: the
greeting's exactly while no operation has begun. -/
theorem Balanced.moves {v v' : View} {begun finals b f : ℕ} (h : Balanced v begun finals)
    (hm : Moves v v' b f) : Balanced v' (begun + b) (finals + f) := by
  -- only `begins`, and the moves to `ready` or to a rejection, change a count
  cases hm with
  | stay => exact h
  | begins o =>
      have hready := h.ready rfl
      exact ⟨by omega, by omega, by simp, by simp, fun _ => ⟨by omega, by omega⟩, by simp⟩
  | greets o =>
      obtain ⟨hb, hf⟩ := h.greeting rfl
      exact .of_ready (by omega)
  | answers o =>
      obtain ⟨hf, -⟩ := h.operating rfl
      exact .of_ready (by omega)
  | drains o =>
      obtain ⟨hf, -⟩ := h.asking (Or.inr rfl)
      exact .of_ready (by omega)
  | asks o hp =>
      rcases hp with rfl | rfl
      · obtain ⟨hb, hf⟩ := h.greeting rfl
        exact ⟨h.lower, h.upper, by simp, by simp, by simp, fun _ => ⟨by omega, by simp [hb]⟩⟩
      · obtain ⟨hf, hb⟩ := h.operating rfl
        have hne : begun ≠ 0 := by omega
        exact ⟨h.lower, h.upper, by simp, by simp, by simp, fun _ => ⟨by omega, by simp [hne]⟩⟩
  | resumes o =>
      obtain ⟨hf, ho⟩ := h.asking (Or.inl rfl)
      by_cases hb : begun = 0
      · obtain rfl : o = .greeting := by simpa [hb] using ho
        exact ⟨h.lower, h.upper, fun _ => ⟨by omega, by omega⟩, by simp, by simp, by simp⟩
      · obtain rfl : o = .operating := by simpa [hb] using ho
        exact ⟨h.lower, h.upper, by simp, by simp, fun _ => ⟨by omega, by omega⟩, by simp⟩
  | cancels o =>
      have hasking := h.asking (Or.inl rfl)
      exact ⟨h.lower, h.upper, by simp, by simp, by simp, fun _ => hasking⟩
  | dies o => exact .of_dead h.lower h.upper
  | rejects o =>
      obtain ⟨hb, hf⟩ := h.greeting rfl
      exact .of_dead (by omega) (by omega)
  | rejectsDrained =>
      obtain ⟨hf, ho⟩ := h.asking (Or.inr rfl)
      exact .of_dead (by omega) (by omega)

/-! ## §2 Runs of a machine -/

/-- What a call returned; `none` for `invalidate` and `close`, which return nothing. -/
abbrev Answer : Type := Option (Except StateError Unit)

/-- A machine and the counters beside it. -/
structure Tally (μ : Type) : Type where
  machine : μ
  begun : ℕ
  finals : ℕ

/-- Counts a call of the counted kind that returned `Ok`. -/
def counted (counts : Bool) (answer : Answer) : ℕ :=
  if counts = true ∧ answer = some (.ok ()) then 1 else 0

section Runs

variable {μ κ : Type} (call : μ → κ → Answer × μ) (begins finishes : κ → Bool)

/-- One call: the machine moves, and an accepted call is counted. -/
def Tally.step (t : Tally μ) (c : κ) : Tally μ :=
  { machine := (call t.machine c).2
    begun := t.begun + counted (begins c) (call t.machine c).1
    finals := t.finals + counted (finishes c) (call t.machine c).1 }

def Tally.steps (t : Tally μ) (calls : List κ) : Tally μ :=
  calls.foldl (Tally.step call begins finishes) t

variable {call begins finishes}

/-- The balance of a whole run, from the moves of one call. -/
theorem Tally.steps_balanced {view : μ → View}
    (hmoves : ∀ m c, Moves (view m) (view (call m c).2) (counted (begins c) (call m c).1)
      (counted (finishes c) (call m c).1))
    {t : Tally μ} (h : Balanced (view t.machine) t.begun t.finals) (calls : List κ) :
    Balanced (view (t.steps call begins finishes calls).machine)
      (t.steps call begins finishes calls).begun (t.steps call begins finishes calls).finals := by
  induction calls generalizing t with
  | nil => exact h
  | cons c calls ih => exact ih (h.moves (hmoves t.machine c))

/-- A property of the machine that every call keeps. -/
theorem Tally.steps_keep {P : μ → Prop} (hkeep : ∀ m c, P m → P (call m c).2) {t : Tally μ}
    (h : P t.machine) (calls : List κ) : P (t.steps call begins finishes calls).machine := by
  induction calls generalizing t with
  | nil => exact h
  | cons c calls ih => exact ih (hkeep t.machine c h)

end Runs

def LineKind.isFinal : LineKind → Bool
  | .ok | .err => true
  | _ => false

/-! ## §3 The client -/

inductive ClientCall : Type where
  | receive (event : LineKind)
  | beginCommand
  | finishInquiry (cancelled : Bool)
  | invalidate
  | close
deriving DecidableEq, Repr

namespace ClientMachine

def call (m : ClientMachine) : ClientCall → Answer × ClientMachine
  | .receive event => (some (m.receive event).1, (m.receive event).2)
  | .beginCommand => (some m.beginCommand.1, m.beginCommand.2)
  | .finishInquiry cancelled =>
      (some (m.finishInquiry cancelled).1, (m.finishInquiry cancelled).2)
  | .invalidate => (none, m.invalidate)
  | .close => (none, m.close)

def begins : ClientCall → Bool
  | .beginCommand => true
  | _ => false

def finishes : ClientCall → Bool
  | .receive event => event.isFinal
  | _ => false

/-- The machine and its counters after `calls`, from `new`. -/
def run (calls : List ClientCall) : Tally ClientMachine :=
  (⟨.new, 0, 0⟩ : Tally ClientMachine).steps call begins finishes calls

def Terminal (m : ClientMachine) : Prop := m.state = .invalid ∨ m.state = .closed

def phaseOf : ClientState → SessionPhase
  | .greeting => .greeting
  | .ready => .ready
  | .command => .operating
  | .inquiry => .inquiry
  | .awaitFinal => .awaitFinal
  | .invalid | .closed => .dead

def view (m : ClientMachine) : View := ⟨phaseOf m.state, phaseOf m.inquiryOrigin⟩

theorem invalidate_view (m : ClientMachine) :
    m.invalidate.view = ⟨.dead, phaseOf m.inquiryOrigin⟩ := by
  obtain ⟨state, origin⟩ := m
  cases state <;> rfl

/-- A received line moves the machine as the phases allow. -/
theorem receive_moves (m : ClientMachine) (event : LineKind) :
    Moves m.view (m.receive event).2.view 0
      (counted event.isFinal (some (m.receive event).1)) := by
  obtain ⟨state, origin⟩ := m
  cases state with
  | greeting =>
      cases event with
      | ok => exact .greets _
      | err => exact .dies _ _
      | inquire => exact .asks _ (Or.inl rfl)
      | data => exact .dies _ _
      | end_ => exact .dies _ _
      | _ => exact .stay _
  | ready =>
      cases event with
      | comment => exact .stay _
      | empty => exact .stay _
      | _ => exact .dies _ _
  | command =>
      cases event with
      | ok => exact .answers _
      | err => exact .answers _
      | inquire => exact .asks _ (Or.inr rfl)
      | _ => exact .stay _
  | inquiry =>
      cases event with
      | status => exact .stay _
      | comment => exact .stay _
      | empty => exact .stay _
      | _ => exact .dies _ _
  | awaitFinal =>
      cases event with
      | ok => exact .drains _
      | err =>
          -- only here does the remembered origin decide
          cases origin with
          | greeting => exact .dies _ _
          | _ => exact .drains _
      | status => exact .stay _
      | comment => exact .stay _
      | empty => exact .stay _
      | _ => exact .dies _ _
  | invalid => cases event <;> exact .stay _
  | closed => cases event <;> exact .stay _

theorem call_moves (m : ClientMachine) (c : ClientCall) :
    Moves m.view (m.call c).2.view (counted (begins c) (m.call c).1)
      (counted (finishes c) (m.call c).1) := by
  cases c with
  | receive event => exact receive_moves m event
  | beginCommand =>
      obtain ⟨state, origin⟩ := m
      cases state with
      | ready => exact .begins _
      | _ => exact .stay _
  | finishInquiry cancelled =>
      obtain ⟨state, origin⟩ := m
      cases state with
      | inquiry =>
          cases cancelled with
          | true => exact .cancels _
          | false => exact .resumes _
      | _ => exact .stay _
  | invalidate =>
      show Moves m.view m.invalidate.view 0 0
      rw [invalidate_view]
      exact .dies _ _
  | close => exact .dies _ _

theorem run_balanced (calls : List ClientCall) :
    Balanced (run calls).machine.view (run calls).begun (run calls).finals :=
  @Tally.steps_balanced _ _ call begins finishes view call_moves ⟨.new, 0, 0⟩ .new calls

/-- A terminal machine refuses every call with a result. -/
theorem call_terminal {m : ClientMachine} (h : Terminal m) (c : ClientCall) :
    (m.call c).1 ≠ some (.ok ()) := by
  obtain ⟨state, origin⟩ := m
  rcases h with h | h <;> cases h <;> cases c <;>
    simp [call, receive, beginCommand, finishInquiry]

theorem call_keeps_terminal (m : ClientMachine) (c : ClientCall) (h : Terminal m) :
    Terminal (m.call c).2 := by
  obtain ⟨state, origin⟩ := m
  rcases h with h | h <;> cases h <;> cases c <;>
    simp [call, receive, beginCommand, finishInquiry, invalidate, close, Terminal]

theorem call_keeps_closed (m : ClientMachine) (c : ClientCall) (h : m.state = .closed) :
    (m.call c).2.state = .closed := by
  obtain ⟨state, origin⟩ := m
  cases h
  cases c <;> rfl

theorem run_append (calls later : List ClientCall) :
    run (calls ++ later) = (run calls).steps call begins finishes later :=
  List.foldl_append

/-- The origin of an inquiry, read off the counters. -/
theorem run_asking (calls : List ClientCall)
    (h : (run calls).machine.state = .inquiry ∨ (run calls).machine.state = .awaitFinal) :
    (run calls).finals = (run calls).begun ∧
      (run calls).machine.inquiryOrigin = if (run calls).begun = 0 then .greeting else .command := by
  have hasking := (run_balanced calls).asking (h.imp (congrArg phaseOf) (congrArg phaseOf))
  refine ⟨hasking.1, ?_⟩
  have horigin := hasking.2
  rw [view] at horigin
  split
  · next hzero =>
      rw [if_pos hzero] at horigin
      cases ho : (run calls).machine.inquiryOrigin <;> simp_all [phaseOf]
  · next hzero =>
      rw [if_neg hzero] at horigin
      cases ho : (run calls).machine.inquiryOrigin <;> simp_all [phaseOf]

/-- Nothing is accepted after a terminal state, in any continuation. -/
theorem run_terminal {calls : List ClientCall} (h : (run calls).machine.Terminal)
    (later : List ClientCall) : (run (calls ++ later)).machine.Terminal ∧
      ∀ c, ((run (calls ++ later)).machine.call c).1 ≠ some (.ok ()) := by
  have hdead : (run (calls ++ later)).machine.Terminal := by
    rw [run_append]
    exact Tally.steps_keep call_keeps_terminal h later
  exact ⟨hdead, call_terminal hdead⟩

theorem run_closed {calls : List ClientCall} (h : (run calls).machine.state = .closed)
    (later : List ClientCall) : (run (calls ++ later)).machine.state = .closed := by
  rw [run_append]
  exact Tally.steps_keep call_keeps_closed h later

theorem receive_error {m : ClientMachine} {event : LineKind} {e : StateError}
    (h : (m.receive event).1 = .error e) : Terminal (m.receive event).2 := by
  obtain ⟨state, origin⟩ := m
  cases state <;> cases event <;> cases origin <;> simp_all [receive, Terminal, invalidate]

theorem beginCommand_error {m : ClientMachine} {e : StateError}
    (h : m.beginCommand.1 = .error e) : m.beginCommand.2 = m := by
  obtain ⟨state, origin⟩ := m
  cases state <;> simp_all [beginCommand]

theorem finishInquiry_error {m : ClientMachine} {cancelled : Bool} {e : StateError}
    (h : (m.finishInquiry cancelled).1 = .error e) : (m.finishInquiry cancelled).2 = m := by
  obtain ⟨state, origin⟩ := m
  cases state <;> simp_all [finishInquiry]

end ClientMachine

/-! ## §4 The server -/

inductive ServerCall : Type where
  | receiveRequest (event : RequestKind)
  | sendResponse (event : LineKind)
  | invalidate
  | close
deriving DecidableEq, Repr

namespace ServerMachine

def call (m : ServerMachine) : ServerCall → Answer × ServerMachine
  | .receiveRequest event => (some (m.receiveRequest event).1, (m.receiveRequest event).2)
  | .sendResponse event => (some (m.sendResponse event).1, (m.sendResponse event).2)
  | .invalidate => (none, m.invalidate)
  | .close => (none, m.close)

def begins : ServerCall → Bool
  | .receiveRequest event => event = .command
  | _ => false

def finishes : ServerCall → Bool
  | .sendResponse event => event.isFinal
  | _ => false

/-- The machine and its counters after `calls`, from `new`. -/
def run (calls : List ServerCall) : Tally ServerMachine :=
  (⟨.new, 0, 0⟩ : Tally ServerMachine).steps call begins finishes calls

def Terminal (m : ServerMachine) : Prop := m.state = .invalid ∨ m.state = .closed

def phaseOf : ServerState → SessionPhase
  | .greeting => .greeting
  | .ready => .ready
  | .handler => .operating
  | .inquiry => .inquiry
  | .awaitFinal => .awaitFinal
  | .invalid | .closed => .dead

def view (m : ServerMachine) : View := ⟨phaseOf m.state, phaseOf m.inquiryOrigin⟩

theorem invalidate_view (m : ServerMachine) :
    m.invalidate.view = ⟨.dead, phaseOf m.inquiryOrigin⟩ := by
  obtain ⟨state, origin⟩ := m
  cases state <;> rfl

/-- A request moves the machine as the phases allow. -/
theorem receiveRequest_moves (m : ServerMachine) (event : RequestKind) :
    Moves m.view (m.receiveRequest event).2.view
      (counted (event = .command) (some (m.receiveRequest event).1)) 0 := by
  obtain ⟨state, origin⟩ := m
  cases state with
  | ready =>
      cases event with
      | command => exact .begins _
      | comment => exact .stay _
      | empty => exact .stay _
      | _ => exact .dies _ _
  | inquiry =>
      cases event with
      | command => exact .dies _ _
      | end_ => exact .resumes _
      | can => exact .cancels _
      | _ => exact .stay _
  | invalid => cases event <;> exact .stay _
  | closed => cases event <;> exact .stay _
  | _ =>
      cases event with
      | comment => exact .stay _
      | empty => exact .stay _
      | _ => exact .dies _ _

/-- A response moves the machine as the phases allow. -/
theorem sendResponse_moves (m : ServerMachine) (event : LineKind) :
    Moves m.view (m.sendResponse event).2.view 0
      (counted event.isFinal (some (m.sendResponse event).1)) := by
  obtain ⟨state, origin⟩ := m
  cases state with
  | greeting =>
      cases event with
      | ok => exact .greets _
      | err => exact .rejects _
      | inquire => exact .asks _ (Or.inl rfl)
      | data => exact .dies _ _
      | end_ => exact .dies _ _
      | _ => exact .stay _
  | ready =>
      cases event with
      | comment => exact .stay _
      | empty => exact .stay _
      | _ => exact .dies _ _
  | handler =>
      cases event with
      | ok => exact .answers _
      | err => exact .answers _
      | inquire => exact .asks _ (Or.inr rfl)
      | _ => exact .stay _
  | inquiry =>
      cases event with
      | status => exact .stay _
      | comment => exact .stay _
      | empty => exact .stay _
      | _ => exact .dies _ _
  | awaitFinal =>
      cases event with
      | ok => exact .drains _
      | err =>
          cases origin with
          | greeting => exact .rejectsDrained
          | _ => exact .drains _
      | status => exact .stay _
      | comment => exact .stay _
      | empty => exact .stay _
      | _ => exact .dies _ _
  | invalid => cases event <;> exact .stay _
  | closed => cases event <;> exact .stay _

theorem call_moves (m : ServerMachine) (c : ServerCall) :
    Moves m.view (m.call c).2.view (counted (begins c) (m.call c).1)
      (counted (finishes c) (m.call c).1) := by
  cases c with
  | receiveRequest event => exact receiveRequest_moves m event
  | sendResponse event => exact sendResponse_moves m event
  | invalidate =>
      show Moves m.view m.invalidate.view 0 0
      rw [invalidate_view]
      exact .dies _ _
  | close => exact .dies _ _

theorem run_balanced (calls : List ServerCall) :
    Balanced (run calls).machine.view (run calls).begun (run calls).finals :=
  @Tally.steps_balanced _ _ call begins finishes view call_moves ⟨.new, 0, 0⟩ .new calls

theorem call_terminal {m : ServerMachine} (h : Terminal m) (c : ServerCall) :
    (m.call c).1 ≠ some (.ok ()) := by
  obtain ⟨state, origin⟩ := m
  rcases h with h | h <;> cases h <;> cases c <;> simp [call, receiveRequest, sendResponse]

theorem call_keeps_terminal (m : ServerMachine) (c : ServerCall) (h : Terminal m) :
    Terminal (m.call c).2 := by
  obtain ⟨state, origin⟩ := m
  rcases h with h | h <;> cases h <;> cases c <;>
    simp [call, receiveRequest, sendResponse, invalidate, close, Terminal]

theorem call_keeps_closed (m : ServerMachine) (c : ServerCall) (h : m.state = .closed) :
    (m.call c).2.state = .closed := by
  obtain ⟨state, origin⟩ := m
  cases h
  cases c <;> rfl

theorem run_append (calls later : List ServerCall) :
    run (calls ++ later) = (run calls).steps call begins finishes later :=
  List.foldl_append

/-- The origin of an inquiry, read off the counters. -/
theorem run_asking (calls : List ServerCall)
    (h : (run calls).machine.state = .inquiry ∨ (run calls).machine.state = .awaitFinal) :
    (run calls).finals = (run calls).begun ∧
      (run calls).machine.inquiryOrigin = if (run calls).begun = 0 then .greeting else .handler := by
  have hasking := (run_balanced calls).asking (h.imp (congrArg phaseOf) (congrArg phaseOf))
  refine ⟨hasking.1, ?_⟩
  have horigin := hasking.2
  rw [view] at horigin
  split
  · next hzero =>
      rw [if_pos hzero] at horigin
      cases ho : (run calls).machine.inquiryOrigin <;> simp_all [phaseOf]
  · next hzero =>
      rw [if_neg hzero] at horigin
      cases ho : (run calls).machine.inquiryOrigin <;> simp_all [phaseOf]

/-- Nothing is accepted after a terminal state, in any continuation. -/
theorem run_terminal {calls : List ServerCall} (h : (run calls).machine.Terminal)
    (later : List ServerCall) : (run (calls ++ later)).machine.Terminal ∧
      ∀ c, ((run (calls ++ later)).machine.call c).1 ≠ some (.ok ()) := by
  have hdead : (run (calls ++ later)).machine.Terminal := by
    rw [run_append]
    exact Tally.steps_keep call_keeps_terminal h later
  exact ⟨hdead, call_terminal hdead⟩

theorem run_closed {calls : List ServerCall} (h : (run calls).machine.state = .closed)
    (later : List ServerCall) : (run (calls ++ later)).machine.state = .closed := by
  rw [run_append]
  exact Tally.steps_keep call_keeps_closed h later

theorem receiveRequest_error {m : ServerMachine} {event : RequestKind} {e : StateError}
    (h : (m.receiveRequest event).1 = .error e) : Terminal (m.receiveRequest event).2 := by
  obtain ⟨state, origin⟩ := m
  cases state <;> cases event <;> simp_all [receiveRequest, Terminal, invalidate]

theorem sendResponse_error {m : ServerMachine} {event : LineKind} {e : StateError}
    (h : (m.sendResponse event).1 = .error e) : Terminal (m.sendResponse event).2 := by
  obtain ⟨state, origin⟩ := m
  cases state <;> cases event <;> cases origin <;> simp_all [sendResponse, Terminal, invalidate]

/-- An accepted `ERR` ends the session exactly while the greeting is pending. -/
theorem sendResponse_err_ok {m : ServerMachine} {begun finals : ℕ}
    (hb : Balanced m.view begun finals) (h : (m.sendResponse .err).1 = .ok ()) :
    (m.sendResponse .err).2.state = if begun = 0 then .invalid else .ready := by
  obtain ⟨state, origin⟩ := m
  cases state with
  | greeting =>
      obtain ⟨rfl, -⟩ := hb.greeting rfl
      rfl
  | handler =>
      obtain ⟨-, hpos⟩ := hb.operating rfl
      rw [if_neg (by omega)]
      rfl
  | awaitFinal =>
      obtain ⟨-, horigin⟩ := hb.asking (Or.inr rfl)
      by_cases hzero : begun = 0
      · cases origin <;> simp_all [view, phaseOf, sendResponse, invalidate]
      · cases origin <;> simp_all [view, phaseOf, sendResponse]
  | _ => exact absurd h (by simp [sendResponse])

end ServerMachine

/-! ## §5 Both machines -/

/-- **One final response per operation, against any peer.** -/
theorem one_final_per_operation :
    (∀ calls : List ClientCall,
      let t := ClientMachine.run calls
      (t.begun ≤ t.finals ∧ t.finals ≤ t.begun + 1) ∧
      (t.machine.state = .greeting → t.begun = 0 ∧ t.finals = 0) ∧
      (t.machine.state = .ready → t.finals = t.begun + 1) ∧
      (t.machine.state = .command → t.finals = t.begun ∧ 1 ≤ t.begun) ∧
      (t.machine.state = .inquiry ∨ t.machine.state = .awaitFinal → t.finals = t.begun ∧
        t.machine.inquiryOrigin = if t.begun = 0 then .greeting else .command) ∧
      (∀ e, t.machine.beginCommand.1 = .error e → t.machine.beginCommand.2 = t.machine) ∧
      (∀ cancelled e, (t.machine.finishInquiry cancelled).1 = .error e →
        (t.machine.finishInquiry cancelled).2 = t.machine) ∧
      (∀ event e, (t.machine.receive event).1 = .error e →
        (t.machine.receive event).2.Terminal) ∧
      (t.machine.Terminal → ∀ later,
        (ClientMachine.run (calls ++ later)).machine.Terminal ∧
        ∀ c, ((ClientMachine.run (calls ++ later)).machine.call c).1 ≠ some (.ok ())) ∧
      (t.machine.state = .closed →
        ∀ later, (ClientMachine.run (calls ++ later)).machine.state = .closed)) ∧
    (∀ calls : List ServerCall,
      let t := ServerMachine.run calls
      (t.begun ≤ t.finals ∧ t.finals ≤ t.begun + 1) ∧
      (t.machine.state = .greeting → t.begun = 0 ∧ t.finals = 0) ∧
      (t.machine.state = .ready → t.finals = t.begun + 1) ∧
      (t.machine.state = .handler → t.finals = t.begun ∧ 1 ≤ t.begun) ∧
      (t.machine.state = .inquiry ∨ t.machine.state = .awaitFinal → t.finals = t.begun ∧
        t.machine.inquiryOrigin = if t.begun = 0 then .greeting else .handler) ∧
      (∀ event e, (t.machine.receiveRequest event).1 = .error e →
        (t.machine.receiveRequest event).2.Terminal) ∧
      (∀ event e, (t.machine.sendResponse event).1 = .error e →
        (t.machine.sendResponse event).2.Terminal) ∧
      ((t.machine.sendResponse .err).1 = .ok () →
        (t.machine.sendResponse .err).2.state = if t.begun = 0 then .invalid else .ready) ∧
      (t.machine.Terminal → ∀ later,
        (ServerMachine.run (calls ++ later)).machine.Terminal ∧
        ∀ c, ((ServerMachine.run (calls ++ later)).machine.call c).1 ≠ some (.ok ())) ∧
      (t.machine.state = .closed →
        ∀ later, (ServerMachine.run (calls ++ later)).machine.state = .closed)) := by
  constructor
  · intro calls t
    have hb := ClientMachine.run_balanced calls
    exact ⟨⟨hb.lower, hb.upper⟩, fun h => hb.greeting (congrArg ClientMachine.phaseOf h),
      fun h => hb.ready (congrArg ClientMachine.phaseOf h),
      fun h => hb.operating (congrArg ClientMachine.phaseOf h), ClientMachine.run_asking calls,
      fun e => ClientMachine.beginCommand_error,
      fun cancelled e => ClientMachine.finishInquiry_error,
      fun event e => ClientMachine.receive_error, ClientMachine.run_terminal,
      ClientMachine.run_closed⟩
  · intro calls t
    have hb := ServerMachine.run_balanced calls
    exact ⟨⟨hb.lower, hb.upper⟩, fun h => hb.greeting (congrArg ServerMachine.phaseOf h),
      fun h => hb.ready (congrArg ServerMachine.phaseOf h),
      fun h => hb.operating (congrArg ServerMachine.phaseOf h), ServerMachine.run_asking calls,
      fun event e => ServerMachine.receiveRequest_error,
      fun event e => ServerMachine.sendResponse_error,
      ServerMachine.sendResponse_err_ok hb, ServerMachine.run_terminal, ServerMachine.run_closed⟩

end Assuan
