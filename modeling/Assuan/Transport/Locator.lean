import Assuan.Transport.Budget

/-!
# Asking for the agent socket (`assuan-transport/src/discovery.rs`)

`gpgconf` runs as a child process. Three futures are joined under one deadline: the
two loops that drain its output and the wait for its end. The first error ends the
join, and then the child is killed and waited for. What the system does, when, and
in which order the futures go on is data of the model.
-/

namespace Assuan

/-! ## §1  The child -/

inductive ExitStatus : Type where
  | exited (code : ℕ)
  | signalled (signal : ℕ)
deriving DecidableEq, Repr

def ExitStatus.success : ExitStatus → Bool
  | .exited code => code = 0
  | .signalled _ => false

/-- `exit` is how the process has ended, `reaped` that its status was collected, and
`killed` that it was sent a signal by its owner. -/
structure Child : Type where
  exit : Option ExitStatus
  killed : Bool
  reaped : Bool
deriving DecidableEq, Repr

/-- `start_kill`, and what a dropped `Child` does: nothing once it was reaped. The
system is taken to accept the signal. -/
def Child.kill (child : Child) : Child := { child with killed := child.killed || !child.reaped }

def Child.reap (child : Child) : Child := { child with reaped := true }

/-! ## §2  The join -/

/-- Where `run_process` stands: in `timeout_at`, before `start_kill`, at the last
`wait`, or at its end. -/
inductive LocatorPhase : Type where
  | joining
  | killing (error : TransportError)
  | reaping (error : TransportError)
  | returned (result : Outcome TransportError SecretBytes)

/-- `starting` are the loops that were not polled yet, and `status` is what the third
future has returned. -/
structure Locating : Type where
  starting : List Pipe
  draining : Draining
  status : Option ExitStatus
  child : Child
  phase : LocatorPhase

inductive LocatorEvent : Type where
  | start (pipe : Pipe)
  | drain (pipe : Pipe) (event : ReaderEvent)
  | breaks (pipe : Pipe)
  | waits
  | waitFails
  | expires
  | kills
  | reaps
  | reapFails
  | exits (status : ExitStatus)
  | drops

def ReaderPhase.outcome : ReaderPhase → Outcome TransportError Unit
  | .ended result => result.bind fun _ => .ok ()
  | _ => .ok ()

namespace Locating

/-- After `spawn`, with what the two pipes are going to deliver. -/
def new (stdout stderr : Bytes) : Locating where
  starting := [.stdout, .stderr]
  draining := .new stdout stderr
  status := none
  child := ⟨none, false, false⟩
  phase := .joining

/-- All three futures are ready. -/
def settle (s : Locating) : Locating :=
  match s.draining.stdout.phase, s.draining.stderr.phase, s.status with
  | .ended (.ok output), .ended (.ok _), some status =>
      if status.success then { s with phase := .returned (.ok output) }
      else { s with phase := .killing (.discovery .processFailed) }
  | _, _, _ => s

/-- What one future has come to: the first error ends the join. -/
def joined (s : Locating) : Outcome TransportError Unit → Locating
  | .ok () => s.settle
  | .err e => { s with phase := .killing e }
  | .panic => { s with phase := .returned .panic }
  | .dropped => { s with phase := .returned .dropped }

section Steps

-- `reserve n` tells whether an allocation of `n` bytes succeeds
variable (reserve : ℕ → Bool)

/-- The allocations of `read_output`. -/
def prepare (p : Pipe) : Outcome TransportError Unit := do
  let _ ← (secretWithCapacity reserve (if p = .stdout then outputLimit else 0)).mapErr .limit
  let _ ← (protectedBuffer reserve scratchBytes).mapErr .limit
  .ok ()

/-- The futures of the join in any order, the deadline, the child, and the owner, who
may drop the whole. A read does not wait: its pipe delivers, ends or breaks, as it does
where nobody but the child holds it. -/
def step (s : Locating) (event : LocatorEvent) : Option Locating :=
  match s.phase, event with
  | .joining, .start p =>
      if p ∈ s.starting then
        some ({ s with starting := s.starting.erase p }.joined (prepare reserve p))
      else none
  | .joining, .drain p event =>
      if p ∈ s.starting then none
      else do
        let draining ← s.draining.step (p, event)
        some ({ s with draining := draining }.joined (draining.reader p).phase.outcome)
  | .joining, .breaks p =>
      if p ∈ s.starting then none
      else
        match (s.draining.reader p).phase with
        | .reading => some (s.joined (.err .io))
        | _ => none
  | .joining, .waits =>
      match s.status, s.child.exit with
      | none, some status =>
          some ({ s with status := some status, child := s.child.reap }.joined (.ok ()))
      | _, _ => none
  | .joining, .waitFails => if s.status = none then some (s.joined (.err .io)) else none
  | .joining, .expires => some (s.joined (.err .timeout))
  | .killing e, .kills => some { s with child := s.child.kill, phase := .reaping e }
  | .reaping e, .reaps =>
      match s.child.exit with
      | some _ => some { s with child := s.child.reap, phase := .returned (.err e) }
      | none => none
  | .reaping e, .reapFails => some { s with phase := .returned (.err e) }
  | .returned _, .drops => none
  | _, .drops => some { s with child := s.child.kill, phase := .returned .dropped }
  | _, .exits status =>
      match s.child.exit with
      | none => some { s with child := { s.child with exit := some status } }
      | some _ => none
  | _, _ => none

end Steps

end Locating

/-! ## §3  The path -/

/-- `output_path` on Unix. A path is absolute if it starts with a slash. -/
def outputPath (output : Bytes) : Outcome TransportError Bytes :=
  if output.getLast? ≠ some lf then .err (.discovery .invalidOutput)
  else
    let bytes := output.dropLast
    if bytes = [] ∨ bytes.any (fun byte => byte = 0 ∨ byte = lf) then
      .err (.discovery .invalidOutput)
    else if bytes.head? ≠ some 47 then .err (.discovery .invalidOutput)
    else .ok bytes

/-- `resolve` on Unix, given the result of `run_process`: the path of the socket. -/
def resolve (result : Outcome TransportError SecretBytes) : Outcome TransportError Bytes := do
  let output ← result
  outputPath output.bytes

/-! ## §4  One step -/

namespace Locating

variable {reserve : ℕ → Bool} {out err : Bytes} {s s' : Locating} {event : LocatorEvent}
  {events : List LocatorEvent}

/-- The ways in which the whole goes on. -/
inductive Moves (reserve : ℕ → Bool) (s : Locating) : LocatorEvent → Locating → Prop
  | start (p : Pipe) (here : s.phase = .joining) (waiting : p ∈ s.starting) :
      Moves reserve s (.start p)
        ({ s with starting := s.starting.erase p }.joined (prepare reserve p))
  | drain (p : Pipe) (event : ReaderEvent) (draining : Draining) (here : s.phase = .joining)
      (started : p ∉ s.starting) (advances : s.draining.step (p, event) = some draining) :
      Moves reserve s (.drain p event)
        ({ s with draining := draining }.joined (draining.reader p).phase.outcome)
  | breaks (p : Pipe) (here : s.phase = .joining) :
      Moves reserve s (.breaks p) { s with phase := .killing .io }
  | waits (status : ExitStatus) (here : s.phase = .joining) (waiting : s.status = none)
      (ended : s.child.exit = some status) :
      Moves reserve s .waits { s with status := some status, child := s.child.reap }.settle
  | waitFails (here : s.phase = .joining) :
      Moves reserve s .waitFails { s with phase := .killing .io }
  | expires (here : s.phase = .joining) :
      Moves reserve s .expires { s with phase := .killing .timeout }
  | kills (e : TransportError) (here : s.phase = .killing e) :
      Moves reserve s .kills { s with child := s.child.kill, phase := .reaping e }
  | reaps (e : TransportError) (here : s.phase = .reaping e) (ended : s.child.exit ≠ none) :
      Moves reserve s .reaps { s with child := s.child.reap, phase := .returned (.err e) }
  | reapFails (e : TransportError) (here : s.phase = .reaping e) :
      Moves reserve s .reapFails { s with phase := .returned (.err e) }
  | exits (status : ExitStatus) (running : s.child.exit = none) :
      Moves reserve s (.exits status) { s with child := { s.child with exit := some status } }
  | drops (here : ∀ o, s.phase ≠ .returned o) :
      Moves reserve s .drops { s with child := s.child.kill, phase := .returned .dropped }

theorem step_exits {status : ExitStatus} (h : s.step reserve (.exits status) = some s') :
    Moves reserve s (.exits status) s' := by
  have hrun : (match s.child.exit with
      | none => some { s with child := { s.child with exit := some status } }
      | some _ => none) = some s' := by
    rw [← h]
    cases hphase : s.phase <;> simp only [step, hphase]
  cases hexit : s.child.exit with
  | none =>
      rw [hexit] at hrun
      obtain rfl := Option.some.inj hrun
      exact .exits status hexit
  | some _ =>
      rw [hexit] at hrun
      exact absurd hrun (by simp)

theorem step_moves (h : s.step reserve event = some s') : Moves reserve s event s' := by
  cases event with
  | exits status => exact step_exits h
  | start p =>
      cases hphase : s.phase <;> simp only [step, hphase] at h
      case joining =>
        by_cases hwaiting : p ∈ s.starting
        · rw [if_pos hwaiting] at h
          obtain rfl := Option.some.inj h
          have hmove := @Moves.start reserve s p hphase hwaiting
          rwa [hphase] at hmove
        · rw [if_neg hwaiting] at h
          exact absurd h (by simp)
      all_goals exact absurd h (by simp)
  | drain p event =>
      cases hphase : s.phase <;> simp only [step, hphase] at h
      case joining =>
        by_cases hwaiting : p ∈ s.starting
        · rw [if_pos hwaiting] at h
          exact absurd h (by simp)
        · rw [if_neg hwaiting] at h
          obtain ⟨draining, hadvances, hs'⟩ := Option.bind_eq_some_iff.mp h
          obtain rfl := Option.some.inj hs'
          have hmove := @Moves.drain reserve s p event draining hphase hwaiting hadvances
          rwa [hphase] at hmove
      all_goals exact absurd h (by simp)
  | breaks p =>
      cases hphase : s.phase <;> simp only [step, hphase] at h
      case joining =>
        by_cases hwaiting : p ∈ s.starting
        · rw [if_pos hwaiting] at h
          exact absurd h (by simp)
        · rw [if_neg hwaiting] at h
          cases hreading : (s.draining.reader p).phase with
          | reading =>
              rw [hreading] at h
              obtain rfl := Option.some.inj h
              exact .breaks p hphase
          | _ =>
              rw [hreading] at h
              exact absurd h (by simp)
      all_goals exact absurd h (by simp)
  | waits =>
      cases hphase : s.phase <;> simp only [step, hphase] at h
      case joining =>
        cases hstatus : s.status with
        | some status =>
            rw [hstatus] at h
            exact absurd h (by simp)
        | none =>
            cases hexit : s.child.exit with
            | none =>
                rw [hstatus, hexit] at h
                exact absurd h (by simp)
            | some status =>
                rw [hstatus, hexit] at h
                obtain rfl := Option.some.inj h
                have hmove := @Moves.waits reserve s status hphase hstatus hexit
                rwa [hphase] at hmove
      all_goals exact absurd h (by simp)
  | waitFails =>
      cases hphase : s.phase <;> simp only [step, hphase] at h
      case joining =>
        by_cases hstatus : s.status = none
        · rw [if_pos hstatus] at h
          obtain rfl := Option.some.inj h
          exact .waitFails hphase
        · rw [if_neg hstatus] at h
          exact absurd h (by simp)
      all_goals exact absurd h (by simp)
  | expires =>
      cases hphase : s.phase <;> simp only [step, hphase] at h
      case joining =>
        obtain rfl := Option.some.inj h
        exact .expires hphase
      all_goals exact absurd h (by simp)
  | kills =>
      cases hphase : s.phase <;> simp only [step, hphase] at h
      case killing e =>
        obtain rfl := Option.some.inj h
        exact .kills e hphase
      all_goals exact absurd h (by simp)
  | reaps =>
      cases hphase : s.phase <;> simp only [step, hphase] at h
      case reaping e =>
        cases hexit : s.child.exit with
        | none =>
            rw [hexit] at h
            exact absurd h (by simp)
        | some status =>
            rw [hexit] at h
            obtain rfl := Option.some.inj h
            exact .reaps e hphase (by simp [hexit])
      all_goals exact absurd h (by simp)
  | reapFails =>
      cases hphase : s.phase <;> simp only [step, hphase] at h
      case reaping e =>
        obtain rfl := Option.some.inj h
        exact .reapFails e hphase
      all_goals exact absurd h (by simp)
  | drops =>
      have hhere : ∀ o, s.phase ≠ .returned o := by
        intro o hphase
        simp only [step, hphase] at h
        exact absurd h (by simp)
      cases hphase : s.phase <;> simp only [step, hphase] at h
      case returned o => exact absurd hphase (hhere o)
      all_goals
        obtain rfl := Option.some.inj h
        exact .drops hhere

/-! ## §5  Whole runs -/

/-- What has made the join fail. -/
inductive Explains (reserve : ℕ → Bool) (out err : Bytes) (events : List LocatorEvent)
    (child : Child) : TransportError → Prop
  | output : outputLimit < out.length + err.length →
      Explains reserve out err events child (.discovery .outputLimit)
  | status {status : ExitStatus} : out.length + err.length ≤ outputLimit →
      child.exit = some status → status.success = false → child.reaped = true →
      Explains reserve out err events child (.discovery .processFailed)
  | deadline : .expires ∈ events → Explains reserve out err events child .timeout
  | pipe (p : Pipe) : .breaks p ∈ events → Explains reserve out err events child .io
  | wait : .waitFails ∈ events → Explains reserve out err events child .io
  | memory (n : ℕ) : reserve n = false →
      Explains reserve out err events child (.limit .allocationFailed)

theorem Explains.mono {child child' : Child} {e : TransportError} {events' : List LocatorEvent}
    (h : Explains reserve out err events child e) (hsub : events ⊆ events')
    (hexit : ∀ status, child.exit = some status → child'.exit = some status)
    (hreaped : child.reaped = true → child'.reaped = true) :
    Explains reserve out err events' child' e := by
  cases h with
  | output hover => exact .output hover
  | status hfits hstatus hfailed hcollected =>
      exact .status hfits (hexit _ hstatus) hfailed (hreaped hcollected)
  | deadline hmem => exact .deadline (hsub hmem)
  | pipe p hmem => exact .pipe p (hsub hmem)
  | wait hmem => exact .wait (hsub hmem)
  | memory n hfails => exact .memory n hfails

/-- The loops that are over have succeeded. -/
def Calm (s : Locating) : Prop :=
  ∀ p o, (s.draining.reader p).phase = .ended o → ∃ output, o = .ok output

/-- All three futures have succeeded. -/
def Complete (s : Locating) : Prop :=
  ∃ output output' status, s.draining.stdout.phase = .ended (.ok output) ∧
    s.draining.stderr.phase = .ended (.ok output') ∧ s.status = some status

/-- What is known in each phase. -/
inductive Stands (reserve : ℕ → Bool) (out err : Bytes) (events : List LocatorEvent)
    (s : Locating) : LocatorPhase → Prop
  | joining : s.Calm → ¬ s.Complete → s.child.killed = false →
      Stands reserve out err events s .joining
  | killing {e : TransportError} : Explains reserve out err events s.child e →
      Stands reserve out err events s (.killing e)
  | reaping {e : TransportError} : Explains reserve out err events s.child e →
      s.child.killed = true ∨ s.child.reaped = true → Stands reserve out err events s (.reaping e)
  | failed {e : TransportError} : Explains reserve out err events s.child e →
      s.child.killed = true ∨ s.child.reaped = true →
      s.child.reaped = true ∨ .reapFails ∈ events →
      Stands reserve out err events s (.returned (.err e))
  | done {output : SecretBytes} {status : ExitStatus} : output.bytes = out →
      out.length + err.length ≤ outputLimit → status.success = true →
      s.child = ⟨some status, false, true⟩ →
      Stands reserve out err events s (.returned (.ok output))
  | dropped : .drops ∈ events → s.child.killed = true ∨ s.child.reaped = true →
      Stands reserve out err events s (.returned .dropped)

/-- The invariant of a run. -/
structure Sound (reserve : ℕ → Bool) (out err : Bytes) (events : List LocatorEvent)
    (s : Locating) : Prop where
  balanced : Draining.Balanced out err s.draining
  waited : ∀ status, s.status = some status → s.child.exit = some status ∧ s.child.reaped = true
  reaped : s.child.reaped = true → s.child.exit ≠ none
  stands : Stands reserve out err events s s.phase

/-- The futures of a join that goes on. -/
structure Joining (out err : Bytes) (s : Locating) : Prop where
  balanced : Draining.Balanced out err s.draining
  waited : ∀ status, s.status = some status → s.child.exit = some status ∧ s.child.reaped = true
  reaped : s.child.reaped = true → s.child.exit ≠ none
  here : s.phase = .joining
  spared : s.child.killed = false

theorem sound_new (out err : Bytes) : Sound reserve out err [] (new out err) := by
  refine ⟨Draining.balanced_new out err, by simp [new], by simp [new], .joining ?_ ?_ rfl⟩
  · intro p o ho
    cases p <;> exact absurd ho (by simp [new, Draining.new, Draining.reader, Reader.new])
  · rintro ⟨_, _, _, -, -, hstatus⟩
    exact absurd hstatus (by simp [new])

theorem Sound.joining (h : Sound reserve out err events s) (here : s.phase = .joining) :
    Joining out err s ∧ s.Calm := by
  have hstands := h.stands
  rw [here] at hstands
  cases hstands with
  | joining hcalm hopen hspared => exact ⟨⟨h.balanced, h.waited, h.reaped, here, hspared⟩, hcalm⟩

/-- A complete join returns by the status; any other goes on. -/
theorem Joining.settle (h : Joining out err s) (hcalm : s.Calm) :
    Sound reserve out err events s.settle := by
  by_cases hcomplete : s.Complete
  · obtain ⟨output, output', status, hstdout, hstderr, hstatus⟩ := hcomplete
    obtain ⟨hexit, hreaped⟩ := h.waited status hstatus
    have hsettle : s.settle = if status.success then { s with phase := .returned (.ok output) }
        else { s with phase := .killing (.discovery .processFailed) } := by
      simp only [Locating.settle, hstdout, hstderr, hstatus]
    rcases @Draining.Balanced.ended out err s.draining h.balanced .stdout _ hstdout with
      ⟨_, hok, haccepted, hbytes⟩ | ⟨herr, -⟩
    · rcases @Draining.Balanced.ended out err s.draining h.balanced .stderr _ hstderr with
        ⟨_, -, haccepted', -⟩ | ⟨herr, -⟩
      · obtain rfl := Outcome.ok.inj hok
        have hbudget := h.balanced.budget
        simp only [Draining.reader, Draining.source] at haccepted haccepted'
        have hfits : out.length + err.length ≤ outputLimit := by omega
        rw [hsettle]
        by_cases hsuccess : status.success = true
        · rw [if_pos hsuccess]
          refine ⟨h.balanced, h.waited, h.reaped,
            .done (hbytes h.balanced.collects) hfits hsuccess ?_⟩
          rw [← hexit, ← hreaped, ← h.spared]
        · rw [if_neg hsuccess]
          exact ⟨h.balanced, h.waited, h.reaped,
            .killing (.status hfits hexit (by simpa using hsuccess) hreaped)⟩
      · exact absurd herr (by simp)
    · exact absurd herr (by simp)
  · have hsettle : s.settle = s := by
      unfold Locating.settle
      split
      · next hstdout hstderr hstatus =>
          exact absurd ⟨_, _, _, hstdout, hstderr, hstatus⟩ hcomplete
      · rfl
    rw [hsettle]
    refine ⟨h.balanced, h.waited, h.reaped, ?_⟩
    rw [h.here]
    exact .joining hcalm hcomplete h.spared

theorem Joining.joined {o : Outcome TransportError Unit} (h : Joining out err s)
    (ho : o = .ok () ∧ s.Calm ∨ ∃ e, o = .err e ∧ Explains reserve out err events s.child e) :
    Sound reserve out err events (s.joined o) := by
  rcases ho with ⟨rfl, hcalm⟩ | ⟨e, rfl, hwhy⟩
  · exact h.settle hcalm
  · exact ⟨h.balanced, h.waited, h.reaped, .killing hwhy⟩

theorem prepare_cases (reserve : ℕ → Bool) (p : Pipe) : prepare reserve p = .ok () ∨
    prepare reserve p = .err (.limit .allocationFailed) ∧ ∃ n, reserve n = false := by
  unfold prepare secretWithCapacity protectedBuffer
  cases hfirst : reserve (if p = .stdout then outputLimit else 0) with
  | false => exact Or.inr ⟨rfl, _, hfirst⟩
  | true =>
      cases hsecond : reserve scratchBytes with
      | false => exact Or.inr ⟨rfl, _, hsecond⟩
      | true => exact Or.inl rfl

/-- One step of a loop: it goes on, it is over, or it has met the limit. -/
theorem drained {p : Pipe} {event : ReaderEvent} {draining : Draining}
    (hjoining : Joining out err s) (hcalm : s.Calm)
    (hstep : s.draining.step (p, event) = some draining) :
    (draining.reader p).phase.outcome = .ok () ∧ ({ s with draining := draining }).Calm ∨
    (draining.reader p).phase.outcome = .err (.discovery .outputLimit) ∧
      outputLimit < out.length + err.length := by
  have hbalanced := hjoining.balanced.step hstep
  have hother : ∀ q, q ≠ p → draining.reader q = s.draining.reader q := by
    intro q hq
    obtain ⟨budget, r, -, rfl⟩ := Draining.step_cases hstep
    cases p <;> cases q <;> first | rfl | exact absurd rfl hq
  have hcalm' : (∀ o, (draining.reader p).phase = .ended o → ∃ output, o = .ok output) →
      ({ s with draining := draining }).Calm := by
    intro hself q o ho
    by_cases hq : q = p
    · subst hq
      exact hself o ho
    · have ho' : (draining.reader q).phase = .ended o := ho
      rw [hother q hq] at ho'
      exact hcalm q o ho'
  cases hphase : (draining.reader p).phase with
  | ended o =>
      rcases hbalanced.ended hphase with ⟨output, rfl, -⟩ | ⟨rfl, hover⟩
      · refine Or.inl ⟨rfl, hcalm' ?_⟩
        intro o ho
        obtain rfl := ReaderPhase.ended.inj (hphase.symm.trans ho)
        exact ⟨output, rfl⟩
      · exact Or.inr ⟨rfl, hover⟩
  | _ => exact Or.inl ⟨rfl, hcalm' fun o ho => absurd (hphase.symm.trans ho) (by simp)⟩

theorem Child.sent_kill (child : Child) : child.kill.killed = true ∨ child.kill.reaped = true := by
  obtain ⟨exit, killed, reaped⟩ := child
  cases reaped <;> simp [Child.kill]

theorem Sound.step (h : Sound reserve out err events s) (hstep : s.step reserve event = some s') :
    Sound reserve out err (events ++ [event]) s' := by
  have hsub : events ⊆ events ++ [event] := List.subset_append_left _ _
  have hlast : event ∈ events ++ [event] := by simp
  cases step_moves hstep with
  | start p here waiting =>
      obtain ⟨hjoining, hcalm⟩ := h.joining here
      have hjoining' : Joining out err { s with starting := s.starting.erase p } :=
        ⟨h.balanced, h.waited, h.reaped, here, hjoining.spared⟩
      apply hjoining'.joined
      rcases prepare_cases reserve p with hok | ⟨herr, n, hn⟩
      · exact Or.inl ⟨hok, hcalm⟩
      · exact Or.inr ⟨_, herr, .memory n hn⟩
  | drain p event draining here started advances =>
      obtain ⟨hjoining, hcalm⟩ := h.joining here
      have hjoining' : Joining out err { s with draining := draining } :=
        ⟨h.balanced.step advances, h.waited, h.reaped, here, hjoining.spared⟩
      apply hjoining'.joined
      rcases drained hjoining hcalm advances with hok | ⟨herr, hover⟩
      · exact Or.inl hok
      · exact Or.inr ⟨_, herr, .output hover⟩
  | breaks p here => exact ⟨h.balanced, h.waited, h.reaped, .killing (.pipe p hlast)⟩
  | waits status here waiting ended =>
      obtain ⟨hjoining, hcalm⟩ := h.joining here
      have hjoining' : Joining out err { s with status := some status, child := s.child.reap } := by
        refine ⟨h.balanced, ?_, ?_, here, hjoining.spared⟩
        · rintro status' hstatus'
          obtain rfl := Option.some.inj hstatus'
          exact ⟨ended, rfl⟩
        · intro _ hnone
          exact absurd (ended.symm.trans hnone) (by simp)
      exact hjoining'.settle hcalm
  | waitFails here => exact ⟨h.balanced, h.waited, h.reaped, .killing (.wait hlast)⟩
  | expires here => exact ⟨h.balanced, h.waited, h.reaped, .killing (.deadline hlast)⟩
  | kills e here =>
      have hstands := h.stands
      rw [here] at hstands
      cases hstands with
      | killing hwhy =>
          exact ⟨h.balanced, h.waited, h.reaped,
            .reaping (hwhy.mono hsub (fun _ hs => hs) fun hr => hr) (Child.sent_kill s.child)⟩
  | reaps e here ended =>
      have hstands := h.stands
      rw [here] at hstands
      cases hstands with
      | reaping hwhy hsent =>
          exact ⟨h.balanced, fun status hstatus => ⟨(h.waited status hstatus).1, rfl⟩,
            fun _ => ended, .failed (hwhy.mono hsub (fun _ hs => hs) fun _ => rfl) (Or.inr rfl)
              (Or.inl rfl)⟩
  | reapFails e here =>
      have hstands := h.stands
      rw [here] at hstands
      cases hstands with
      | reaping hwhy hsent =>
          exact ⟨h.balanced, h.waited, h.reaped,
            .failed (hwhy.mono hsub (fun _ hs => hs) fun hr => hr) hsent (Or.inr hlast)⟩
  | exits status running =>
      -- the status was not known, so nothing rests on it
      have hexit : ∀ status', s.child.exit = some status' →
          some status = some status' := fun _ hsome => absurd (running.symm.trans hsome) (by simp)
      refine ⟨h.balanced, fun status' hstatus' => ?_, by simp, ?_⟩
      · exact absurd (running.symm.trans (h.waited status' hstatus').1) (by simp)
      · have hstands := h.stands
        show Stands reserve out err _ _ s.phase
        generalize s.phase = phase at hstands
        cases hstands with
        | joining hcalm hopen hspared => exact .joining hcalm hopen hspared
        | killing hwhy => exact .killing (hwhy.mono hsub hexit fun hr => hr)
        | reaping hwhy hsent => exact .reaping (hwhy.mono hsub hexit fun hr => hr) hsent
        | failed hwhy hsent hcollected =>
            exact .failed (hwhy.mono hsub hexit fun hr => hr) hsent
              (hcollected.imp_right fun hmem => hsub hmem)
        | done hbytes hfits hsuccess hchild =>
            rw [hchild] at running
            exact absurd running (by simp)
        | dropped hmem hsent => exact .dropped (hsub hmem) hsent
  | drops here =>
      exact ⟨h.balanced, h.waited, h.reaped, .dropped hlast (Child.sent_kill s.child)⟩

theorem sound_run (hrun : runSteps (step reserve) events (new out err) = some s) :
    Sound reserve out err events s :=
  runSteps.history (P := Sound reserve out err) (sound_new out err)
    (fun _ _ _ _ h hstep => h.step hstep) hrun

/-! ### The result -/

/-- The path of a socket as it can be told on one line. -/
structure AbsolutePath (path : Bytes) : Prop where
  slash : path.head? = some 47
  no_nul : 0 ∉ path
  no_lf : lf ∉ path

theorem outputPath_eq_ok {output path : Bytes} :
    outputPath output = .ok path ↔ output = path ++ [lf] ∧ AbsolutePath path := by
  unfold outputPath
  by_cases hlast : output.getLast? = some lf
  · obtain ⟨bytes, rfl⟩ := List.getLast?_eq_some_iff.mp hlast
    rw [if_neg (by simp), List.dropLast_concat]
    simp only [List.append_cancel_right_eq]
    have hany : bytes.any (fun byte => byte = 0 ∨ byte = lf) = true ↔ 0 ∈ bytes ∨ lf ∈ bytes := by
      rw [List.any_eq_true]
      constructor
      · rintro ⟨byte, hmem, hbyte⟩
        rcases of_decide_eq_true hbyte with rfl | rfl
        · exact Or.inl hmem
        · exact Or.inr hmem
      · rintro (hmem | hmem)
        · exact ⟨_, hmem, by decide⟩
        · exact ⟨_, hmem, by decide⟩
    by_cases hbad : bytes = [] ∨ bytes.any (fun byte => byte = 0 ∨ byte = lf) = true
    · rw [if_pos hbad]
      constructor
      · exact fun h => absurd h (by simp)
      · rintro ⟨rfl, hpath⟩
        rcases hbad with rfl | hbad
        · exact absurd hpath.slash (by simp)
        · rcases hany.mp hbad with hmem | hmem
          · exact absurd hmem hpath.no_nul
          · exact absurd hmem hpath.no_lf
    · rw [if_neg hbad]
      obtain ⟨-, hclean⟩ := not_or.mp hbad
      rw [hany] at hclean
      obtain ⟨hnul, hlf⟩ := not_or.mp hclean
      by_cases hslash : bytes.head? = some 47
      · rw [if_neg (by simpa using hslash)]
        constructor
        · intro h
          obtain rfl := Outcome.ok.inj h
          exact ⟨rfl, hslash, hnul, hlf⟩
        · rintro ⟨rfl, -⟩
          rfl
      · rw [if_pos hslash]
        constructor
        · exact fun h => absurd h (by simp)
        · rintro ⟨rfl, hpath⟩
          exact absurd hpath.slash hslash
  · rw [if_pos hlast]
    constructor
    · exact fun h => absurd h (by simp)
    · rintro ⟨rfl, -⟩
      exact absurd (List.getLast?_concat ..) hlast

/-- Neither the deadline nor an error of the system nor the owner has interfered. -/
def Undisturbed (events : List LocatorEvent) : Prop :=
  .expires ∉ events ∧ (∀ p, .breaks p ∉ events) ∧ .waitFails ∉ events ∧ .drops ∉ events

theorem Sound.verdict (h : Sound reserve out err events s) (hcalm : Undisturbed events)
    (hreserve : ∀ n, reserve n = true) {o : Outcome TransportError SecretBytes}
    (here : s.phase = .returned o) :
    if outputLimit < out.length + err.length then o = .err (.discovery .outputLimit)
    else ∃ status, s.child.exit = some status ∧
      if status.success then ∃ output, o = .ok output
      else o = .err (.discovery .processFailed) := by
  obtain ⟨hexpires, hbreaks, hwait, hdrops⟩ := hcalm
  have hstands := h.stands
  rw [here] at hstands
  cases hstands with
  | dropped hmem _ => exact absurd hmem hdrops
  | @done output status _ hfits hsuccess hchild =>
      rw [if_neg (Nat.not_lt.mpr hfits)]
      refine ⟨status, by rw [hchild], ?_⟩
      rw [if_pos hsuccess]
      exact ⟨output, rfl⟩
  | failed hwhy _ _ =>
      cases hwhy with
      | output hover => rw [if_pos hover]
      | @status status hfits hexit hfailed _ =>
          rw [if_neg (Nat.not_lt.mpr hfits)]
          exact ⟨status, hexit, by rw [if_neg (by simp [hfailed])]⟩
      | deadline hmem => exact absurd hmem hexpires
      | pipe p hmem => exact absurd hmem (hbreaks p)
      | wait hmem => exact absurd hmem hwait
      | memory n hn => exact absurd ((hreserve n).symm.trans hn) (by simp)

/-- **What is found is what `gpgconf` printed.** Whatever the order of the three
futures, the deadline and the child: a success means that the child has exited with
success and was not killed, and that the output is all of its stdout, within the
limit. An error has its reason in the run, and the child was killed or is over, and
its status was collected unless the system refused. Only the owner can drop the
call, and the child is killed then too. If nothing interferes, the result depends on
the sizes and the status alone. The path is absolute, and what was printed is the
path and a line feed. -/
theorem run_exact (reserve : ℕ → Bool) (out err : Bytes) (events : List LocatorEvent) (s : Locating)
    (hrun : runSteps (step reserve) events (new out err) = some s) :
    (∀ output, s.phase = .returned (.ok output) → output.bytes = out ∧
      out.length + err.length ≤ 1024 * 1024 ∧
      ∃ status, status.success = true ∧ s.child = ⟨some status, false, true⟩) ∧
    (∀ e, s.phase = .returned (.err e) → Explains reserve out err events s.child e ∧
      (s.child.killed = true ∨ s.child.reaped = true) ∧
      (s.child.reaped = true ∨ .reapFails ∈ events)) ∧
    s.phase ≠ .returned .panic ∧
    (s.phase = .returned .dropped →
      .drops ∈ events ∧ (s.child.killed = true ∨ s.child.reaped = true)) ∧
    ∀ o, s.phase = .returned o →
      (Undisturbed events → (∀ n, reserve n = true) →
        if 1024 * 1024 < out.length + err.length then o = .err (.discovery .outputLimit)
        else ∃ status, s.child.exit = some status ∧
          if status.success then ∃ output, o = .ok output
          else o = .err (.discovery .processFailed)) ∧
      ∀ path, resolve o = .ok path ↔
        (∃ output, o = .ok output) ∧ out = path ++ [lf] ∧ AbsolutePath path := by
  have hsound := sound_run hrun
  have hstands := hsound.stands
  have hdone : ∀ output, s.phase = .returned (.ok output) → output.bytes = out ∧
      out.length + err.length ≤ 1024 * 1024 ∧
      ∃ status, status.success = true ∧ s.child = ⟨some status, false, true⟩ := by
    intro output here
    rw [here] at hstands
    cases hstands with
    | done hbytes hfits hsuccess hchild => exact ⟨hbytes, hfits, _, hsuccess, hchild⟩
  refine ⟨hdone, ?_, ?_, ?_, ?_⟩
  · intro e here
    rw [here] at hstands
    cases hstands with
    | failed hwhy hsent hcollected => exact ⟨hwhy, hsent, hcollected⟩
  · intro here
    rw [here] at hstands
    cases hstands
  · intro here
    rw [here] at hstands
    cases hstands with
    | dropped hmem hsent => exact ⟨hmem, hsent⟩
  · intro o here
    refine ⟨fun hcalm hreserve => hsound.verdict hcalm hreserve here, ?_⟩
    intro path
    cases o with
    | ok output =>
        have hbytes := (hdone output here).1
        show outputPath output.bytes = .ok path ↔ _
        rw [outputPath_eq_ok, hbytes]
        exact ⟨fun h => ⟨⟨output, rfl⟩, h⟩, fun h => h.2⟩
    | _ => exact ⟨fun h => absurd h (by simp [resolve]), fun h => absurd h.1 (by simp)⟩

/-- `/s` and a line feed on stdout and a byte on stderr, with reads in between. -/
def printing : List LocatorEvent :=
  [.start .stdout, .drain .stdout (.read 2), .start .stderr, .drain .stdout .spend,
    .drain .stderr (.read 1), .exits (.exited 0), .drain .stdout .store, .drain .stderr .spend,
    .waits, .drain .stderr .store, .drain .stdout (.read 1), .drain .stdout .spend,
    .drain .stdout .store, .drain .stdout (.read 1), .drain .stderr (.read 1)]

theorem run_exact_printing : ∃ s output,
    runSteps (step fun _ => true) printing (new [47, 115, 10] [33]) = some s ∧
      s.phase = .returned (.ok output) ∧ output.bytes = [47, 115, 10] ∧
      resolve (.ok output) = .ok [47, 115] := by
  have hrun : ((runSteps (step fun _ => true) printing (new [47, 115, 10] [33])).map fun s =>
      match s.phase with
      | .returned (.ok _) => true
      | .returned (.err _) | .returned .panic | .returned .dropped => false
      | .joining | .killing _ | .reaping _ => false) = some true := by decide +kernel
  obtain ⟨s, hs, hreturned⟩ := Option.map_eq_some_iff.mp hrun
  obtain ⟨output, houtput⟩ : ∃ output, s.phase = .returned (.ok output) := by
    split at hreturned
    case h_1 output houtput => exact ⟨output, houtput⟩
    all_goals exact absurd hreturned (by simp)
  obtain ⟨hdone, -, -, -, hresult⟩ := run_exact _ _ _ _ _ hs
  exact ⟨s, output, hs, houtput, (hdone output houtput).1, ((hresult _ houtput).2 [47, 115]).mpr
    ⟨⟨output, rfl⟩, rfl, rfl, by decide, by decide⟩⟩

/-! ## §6  It ends -/

def LocatorPhase.rank : LocatorPhase → ℕ
  | .joining => 3
  | .killing _ => 2
  | .reaping _ => 1
  | .returned _ => 0

/-- One step is left until a status is known. -/
def due : Option ExitStatus → ℕ
  | none => 1
  | some _ => 0

/-- The steps that can still be taken, at most. -/
def remaining (s : Locating) : ℕ :=
  s.starting.length + s.draining.remaining + due s.status + due s.child.exit +
    LocatorPhase.rank s.phase

theorem settle_remaining (s : Locating) (here : s.phase = .joining) :
    s.settle.remaining ≤ s.remaining := by
  unfold settle
  split
  · split <;> simp [remaining, here, LocatorPhase.rank]
  · exact Nat.le_refl _

theorem joined_remaining (s : Locating) (here : s.phase = .joining)
    (o : Outcome TransportError Unit) : (s.joined o).remaining ≤ s.remaining := by
  cases o with
  | ok u => exact settle_remaining s here
  | _ =>
      simp only [joined, remaining, here, LocatorPhase.rank]
      omega

theorem step_remaining (hstep : s.step reserve event = some s') : s'.remaining < s.remaining := by
  cases step_moves hstep with
  | start p here waiting =>
      have hle := joined_remaining { s with starting := s.starting.erase p } here
        (prepare reserve p)
      refine Nat.lt_of_le_of_lt hle ?_
      have hshorter := List.length_erase_of_mem waiting
      have hpos := List.length_pos_of_mem waiting
      simp only [remaining]
      omega
  | drain p event draining here started advances =>
      have hle := joined_remaining { s with draining := draining } here
        (draining.reader p).phase.outcome
      refine Nat.lt_of_le_of_lt hle ?_
      have hless := Draining.step_remaining advances
      simp only [remaining]
      omega
  | waits status here waiting ended =>
      have hle := settle_remaining { s with status := some status, child := s.child.reap } here
      refine Nat.lt_of_le_of_lt hle ?_
      simp only [remaining, waiting, Child.reap, due]
      omega
  | exits status running =>
      simp only [remaining, running, due]
      omega
  | drops here =>
      have hrank : 0 < LocatorPhase.rank s.phase := by
        cases hphase : s.phase with
        | returned o => exact absurd hphase (here o)
        | _ => simp [LocatorPhase.rank]
      have hdropped : LocatorPhase.rank (.returned .dropped) = 0 := rfl
      simp only [remaining, Child.kill, hdropped]
      omega
  | kills e here =>
      simp only [remaining, Child.kill, here, LocatorPhase.rank]
      omega
  | reaps e here ended =>
      simp only [remaining, Child.reap, here, LocatorPhase.rank]
      omega
  | reapFails e here =>
      simp only [remaining, here, LocatorPhase.rank]
      omega
  | breaks p here | waitFails here | expires here =>
      simp only [remaining, here, LocatorPhase.rank]
      omega

/-- What the futures do on their own. -/
def LocatorEvent.forward : LocatorEvent → Bool
  | .start _ | .drain _ _ | .waits | .kills | .reaps => true
  | _ => false

/-- **The call comes to an end.** The number of steps is bounded, the deadline can end
the join at any time, and until the call has returned some step is possible, unless the
child is still running: then the deadline is still to come, or the child was killed.
The last part rests on pipes that do not make a read wait and on a kill that the system
accepts. -/
theorem run_progress (reserve : ℕ → Bool) (out err : Bytes) (events : List LocatorEvent)
    (s : Locating) (hrun : runSteps (step reserve) events (new out err) = some s) :
    events.length ≤ 3 * (out.length + err.length) + 9 ∧
    (s.phase = .joining → (s.step reserve .expires).isSome = true) ∧
    ((∃ o, s.phase = .returned o) ∨
      (∃ event, LocatorEvent.forward event = true ∧ (s.step reserve event).isSome = true) ∨
      s.child.exit = none ∧
        ((∃ s', s.step reserve .expires = some s') ∨ s.child.killed = true)) := by
  have hsound := sound_run hrun
  refine ⟨?_, fun hphase => by simp [step, hphase], ?_⟩
  · have hbound := @runSteps.length_le _ _ (step reserve) events (new out err) s (fun _ => True)
      remaining trivial (fun _ _ _ _ hstep => ⟨trivial, step_remaining hstep⟩) hrun
    have hstart : (new out err).remaining =
      2 + (3 * out.length + 1 + (3 * err.length + 1)) + 5 := rfl
    omega
  · have hstands := hsound.stands
    cases hphase : s.phase with
    | returned o => exact Or.inl ⟨o, rfl⟩
    | killing e => exact Or.inr (Or.inl ⟨.kills, rfl, by simp [step, hphase]⟩)
    | reaping e =>
        rw [hphase] at hstands
        cases hexit : s.child.exit with
        | some status => exact Or.inr (Or.inl ⟨.reaps, rfl, by simp [step, hphase, hexit]⟩)
        | none =>
            cases hstands with
            | reaping _ hsent =>
                rcases hsent with hkilled | hreaped
                · exact Or.inr (Or.inr ⟨rfl, Or.inr hkilled⟩)
                · exact absurd hexit (hsound.reaped hreaped)
    | joining =>
        rw [hphase] at hstands
        cases hstands with
        | joining hcalm hopen _ =>
            cases hexit : s.child.exit with
            | none =>
                refine Or.inr (Or.inr ⟨rfl, Or.inl ⟨s.joined (.err .timeout), ?_⟩⟩)
                simp [step, hphase]
            | some status =>
                refine Or.inr (Or.inl ?_)
                by_cases hstarting : s.starting = []
                · -- the loops go on, or the status is collected, or all is complete
                  have hdrain : ∀ p event, (s.draining.step (p, event)).isSome = true →
                      (s.step reserve (.drain p event)).isSome = true := by
                    intro p event hsome
                    obtain ⟨draining, hdraining⟩ := Option.isSome_iff_exists.mp hsome
                    simp [step, hphase, hstarting, hdraining]
                  by_cases hhalted : ∀ event, s.draining.step event = none
                  · have hended := Draining.halted_iff.mp hhalted
                    cases hstatus : s.status with
                    | none =>
                        exact ⟨.waits, rfl, by simp [step, hphase, hstatus, hexit]⟩
                    | some status' =>
                        obtain ⟨o, ho⟩ := hended .stdout
                        obtain ⟨o', ho'⟩ := hended .stderr
                        obtain ⟨output, rfl⟩ := hcalm .stdout o ho
                        obtain ⟨output', rfl⟩ := hcalm .stderr o' ho'
                        exact absurd ⟨output, output', status', ho, ho', hstatus⟩ hopen
                  · obtain ⟨⟨p, event⟩, hevent⟩ := not_forall.mp hhalted
                    exact ⟨.drain p event, rfl,
                      hdrain p event (Option.isSome_iff_ne_none.mpr hevent)⟩
                · obtain ⟨p, hp⟩ := List.exists_mem_of_ne_nil _ hstarting
                  exact ⟨.start p, rfl, by simp [step, hphase, hp]⟩

/-- The deadline passes while the child is silent. -/
theorem run_progress_silent : ∃ s,
    runSteps (step fun _ => true) [.start .stdout, .expires, .kills] (new [47] []) = some s ∧
      ((∃ o, s.phase = .returned o) ∨
        (∃ event, LocatorEvent.forward event = true ∧
          (s.step (fun _ => true) event).isSome = true) ∨
        s.child.exit = none ∧
          ((∃ s', s.step (fun _ => true) .expires = some s') ∨ s.child.killed = true)) := by
  have hrun : (runSteps (step fun _ => true) [.start .stdout, .expires, .kills]
      (new [47] [])).isSome = true := by decide +kernel
  obtain ⟨s, hs⟩ := Option.isSome_iff_exists.mp hrun
  exact ⟨s, hs, (run_progress _ _ _ _ _ hs).2.2⟩

end Locating

end Assuan
