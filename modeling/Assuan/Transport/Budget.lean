import Assuan.Foundation.Runs
import Assuan.Transport.Discovery

/-!
# The shared output budget

Two loops spend one counter in any order and in pieces of any size. What each of
them was charged for and what is left of the budget add up to the limit in every
state, which decides the verdict: it does not depend on the schedule.
-/

namespace Assuan

namespace Reader

/-! ## §1  One loop -/

/-- How the bytes of the pipe are spread over the loop that reads it. -/
def Tracks (r : Reader) (pipe : Bytes) : Prop :=
  ∃ stored, (r.collect = true → r.output.bytes = stored) ∧
    match r.phase with
    | .reading => pipe = stored ++ r.pending ∧ r.accepted = stored.length
    | .spending scratch =>
        pipe = stored ++ (scratch ++ r.pending) ∧ r.accepted = stored.length
    | .storing scratch =>
        pipe = stored ++ (scratch ++ r.pending) ∧ r.accepted = stored.length + scratch.length
    | .ended (.ok output) => pipe = stored ∧ r.accepted = stored.length ∧ output = r.output
    | .ended (.err e) => e = .discovery .outputLimit ∧ r.accepted ≤ pipe.length
    | .ended .panic => False
    | .ended .dropped => False

theorem tracks_new (pipe : Bytes) (collect : Bool) : (new pipe collect).Tracks pipe :=
  ⟨[], fun _ => rfl, rfl, rfl⟩

theorem Tracks.accepted_le {r : Reader} {pipe : Bytes} (h : r.Tracks pipe) :
    r.accepted ≤ pipe.length := by
  obtain ⟨collect, pending, phase, output, accepted⟩ := r
  obtain ⟨stored, -, hphase⟩ := h
  cases phase with
  | reading =>
      obtain ⟨rfl, rfl⟩ := hphase
      simp only [List.length_append]
      omega
  | spending scratch =>
      obtain ⟨rfl, rfl⟩ := hphase
      simp only [List.length_append]
      omega
  | storing scratch =>
      obtain ⟨rfl, rfl⟩ := hphase
      simp only [List.length_append]
      omega
  | ended result =>
      cases result with
      | ok out =>
          obtain ⟨rfl, rfl, -⟩ := hphase
          exact Nat.le_refl _
      | err e => exact hphase.2
      | panic => exact hphase.elim
      | dropped => exact hphase.elim

/-- The collecting loop has room for the whole budget. -/
def Roomy (r : Reader) : Prop := r.collect = true → r.output.capacity = outputLimit

/-- The ways in which a loop takes a step. -/
inductive Moves (budget : ℕ) (r : Reader) : ℕ → Reader → Prop
  | drained (here : r.phase = .reading) (empty : r.pending = []) :
      Moves budget r budget { r with phase := .ended (.ok r.output) }
  | read (size : ℕ) (here : r.phase = .reading) (pos : 1 ≤ size)
      (inside : size ≤ r.pending.length) :
      Moves budget r budget
        { r with pending := r.pending.drop size, phase := .spending (r.pending.take size) }
  | spent (scratch : Bytes) (here : r.phase = .spending scratch) (fits : scratch.length ≤ budget) :
      Moves budget r (budget - scratch.length)
        { r with phase := .storing scratch, accepted := r.accepted + scratch.length }
  | refused (scratch : Bytes) (here : r.phase = .spending scratch)
      (exceeds : budget < scratch.length) :
      Moves budget r budget { r with phase := .ended (.err (.discovery .outputLimit)) }
  | skipped (scratch : Bytes) (here : r.phase = .storing scratch) (ignores : r.collect = false) :
      Moves budget r budget { r with phase := .reading }
  | stored (scratch : Bytes) (output : SecretBytes) (here : r.phase = .storing scratch)
      (collects : r.collect = true) (extends_ : r.output.extend scratch = .ok output) :
      Moves budget r budget { r with phase := .reading, output := output }
  | unstored (scratch : Bytes) (result : Outcome TransportError SecretBytes)
      (here : r.phase = .storing scratch) (collects : r.collect = true)
      (fails : ∀ output, r.output.extend scratch ≠ .ok output) :
      Moves budget r budget { r with phase := .ended result }

theorem advance_cases {budget budget' : ℕ} {r r' : Reader} {event : ReaderEvent}
    (h : r.advance budget event = some (budget', r')) : Moves budget r budget' r' := by
  cases event with
  | read size =>
      cases hphase : r.phase with
      | reading =>
          simp only [advance, hphase] at h
          by_cases hend : r.pending = []
          · rw [if_pos hend] at h
            obtain ⟨rfl, rfl⟩ := Prod.mk.inj (Option.some.inj h)
            exact .drained hphase hend
          rw [if_neg hend] at h
          by_cases hsize : 1 ≤ size ∧ size ≤ scratchBytes ∧ size ≤ r.pending.length
          · rw [if_pos hsize] at h
            obtain ⟨rfl, rfl⟩ := Prod.mk.inj (Option.some.inj h)
            exact .read size hphase hsize.1 hsize.2.2
          · rw [if_neg hsize] at h
            exact absurd h (by simp)
      | spending scratch => simp [advance, hphase] at h
      | storing scratch => simp [advance, hphase] at h
      | ended result => simp [advance, hphase] at h
  | spend =>
      cases hphase : r.phase with
      | spending scratch =>
          simp only [advance, hphase] at h
          by_cases hfits : scratch.length ≤ budget
          · rw [checkedSub, if_pos hfits] at h
            obtain ⟨rfl, rfl⟩ := Prod.mk.inj (Option.some.inj h)
            exact .spent scratch hphase hfits
          · rw [checkedSub, if_neg hfits] at h
            obtain ⟨rfl, rfl⟩ := Prod.mk.inj (Option.some.inj h)
            exact .refused scratch hphase (Nat.lt_of_not_le hfits)
      | reading => simp [advance, hphase] at h
      | storing scratch => simp [advance, hphase] at h
      | ended result => simp [advance, hphase] at h
  | store =>
      cases hphase : r.phase with
      | storing scratch =>
          simp only [advance, hphase] at h
          by_cases hcollect : r.collect = true
          · rw [if_pos hcollect] at h
            cases hextend : r.output.extend scratch with
            | ok output =>
                rw [hextend] at h
                obtain ⟨rfl, rfl⟩ := Prod.mk.inj (Option.some.inj h)
                exact .stored scratch output hphase hcollect hextend
            | _ =>
                rw [hextend] at h
                obtain ⟨rfl, rfl⟩ := Prod.mk.inj (Option.some.inj h)
                exact .unstored scratch _ hphase hcollect (by simp [hextend])
          · rw [if_neg hcollect] at h
            obtain ⟨rfl, rfl⟩ := Prod.mk.inj (Option.some.inj h)
            exact .skipped scratch hphase (eq_false_of_ne_true hcollect)
      | reading => simp [advance, hphase] at h
      | spending scratch => simp [advance, hphase] at h
      | ended result => simp [advance, hphase] at h

/-- What a step of one loop does to it and to the budget. -/
structure Advanced (pipe : Bytes) (budget budget' : ℕ) (r r' : Reader) : Prop where
  tracks : r'.Tracks pipe
  roomy : r'.Roomy
  balance : budget' + r'.accepted = budget + r.accepted
  refused : ∀ e, r'.phase = .ended (.err e) → budget + r.accepted < pipe.length

/-- Bytes that the budget was charged for fit into the output. -/
theorem extend_accepted {budget : ℕ} {r : Reader} {scratch stored : Bytes} (hroomy : r.Roomy)
    (hcollect : r.collect = true) (hbytes : r.output.bytes = stored)
    (haccepted : r.accepted = stored.length + scratch.length)
    (hbudget : budget + r.accepted ≤ outputLimit) :
    ∃ output, r.output.extend scratch = .ok output ∧ output.bytes = stored ++ scratch ∧
      output.capacity = outputLimit := by
  have hcapacity := hroomy hcollect
  have hfits : r.output.bytes.length + scratch.length ≤ r.output.capacity := by
    rw [hbytes, hcapacity]
    omega
  refine ⟨_, SecretBytes.extend_eq r.output (by rw [hcapacity]; decide) hfits, ?_, hcapacity⟩
  simp only [hbytes]

theorem advance_spec {pipe : Bytes} {budget budget' : ℕ} {r r' : Reader} {event : ReaderEvent}
    (hr : r.Tracks pipe) (hroomy : r.Roomy) (hbudget : budget + r.accepted ≤ outputLimit)
    (h : r.advance budget event = some (budget', r')) : Advanced pipe budget budget' r r' := by
  obtain ⟨stored, hstored, hphase⟩ := hr
  cases advance_cases h with
  | drained here empty =>
      simp only [here] at hphase
      obtain ⟨hpipe, haccepted⟩ := hphase
      rw [empty, List.append_nil] at hpipe
      exact ⟨⟨stored, hstored, hpipe, haccepted, rfl⟩, hroomy, rfl, by simp⟩
  | read size here pos inside =>
      simp only [here] at hphase
      obtain ⟨hpipe, haccepted⟩ := hphase
      refine ⟨⟨stored, hstored, ?_, haccepted⟩, hroomy, rfl, by simp⟩
      rw [List.take_append_drop]
      exact hpipe
  | spent scratch here fits =>
      simp only [here] at hphase
      obtain ⟨hpipe, haccepted⟩ := hphase
      refine ⟨⟨stored, hstored, hpipe, ?_⟩, hroomy, ?_, by simp⟩
      · simp only [haccepted]
      · simp only
        omega
  | refused scratch here exceeds =>
      simp only [here] at hphase
      obtain ⟨hpipe, haccepted⟩ := hphase
      have hlen := congrArg List.length hpipe
      simp only [List.length_append] at hlen
      refine ⟨⟨stored, hstored, rfl, ?_⟩, hroomy, rfl, fun e _ => by omega⟩
      simp only
      omega
  | skipped scratch here ignores =>
      simp only [here] at hphase
      obtain ⟨hpipe, haccepted⟩ := hphase
      refine ⟨⟨stored ++ scratch, fun hcollect => ?_, ?_, ?_⟩, hroomy, rfl, by simp⟩
      · rw [ignores] at hcollect
        exact absurd hcollect (by decide)
      · rw [hpipe, List.append_assoc]
      · rw [haccepted, List.length_append]
  | stored scratch output here collects hextend =>
      simp only [here] at hphase
      obtain ⟨hpipe, haccepted⟩ := hphase
      obtain ⟨output', heq, hbytes, hcapacity⟩ :=
        extend_accepted hroomy collects (hstored collects) haccepted hbudget
      obtain rfl : output = output' := Outcome.ok.inj (hextend.symm.trans heq)
      refine ⟨⟨stored ++ scratch, fun _ => hbytes, ?_, ?_⟩, fun _ => hcapacity, rfl, by simp⟩
      · rw [hpipe, List.append_assoc]
      · rw [haccepted, List.length_append]
  | unstored scratch result here collects fails =>
      simp only [here] at hphase
      obtain ⟨output, heq, -, -⟩ :=
        extend_accepted hroomy collects (hstored collects) hphase.2 hbudget
      exact absurd heq (fails output)

/-- A loop that has not ended can go on. -/
theorem advance_progress (budget : ℕ) (r : Reader) :
    (∃ o, r.phase = .ended o) ∨ ∃ event, (r.advance budget event).isSome = true := by
  obtain ⟨collect, pending, phase, output, accepted⟩ := r
  cases phase with
  | ended o => exact Or.inl ⟨o, rfl⟩
  | reading =>
      refine Or.inr ⟨.read 1, ?_⟩
      simp only [advance]
      by_cases hend : pending = []
      · rw [if_pos hend]
        rfl
      · have hsize : 1 ≤ 1 ∧ 1 ≤ scratchBytes ∧ 1 ≤ pending.length :=
          ⟨Nat.le_refl _, by decide, List.length_pos_iff.mpr hend⟩
        rw [if_neg hend, if_pos hsize]
        rfl
  | spending scratch =>
      refine Or.inr ⟨.spend, ?_⟩
      simp only [advance]
      cases checkedSub budget scratch.length with
      | none => rfl
      | some remaining => rfl
  | storing scratch =>
      refine Or.inr ⟨.store, ?_⟩
      simp only [advance]
      cases collect with
      | false => rfl
      | true => cases output.extend scratch <;> rfl

theorem advance_ended {budget : ℕ} {r : Reader} {o : Outcome TransportError SecretBytes}
    (h : r.phase = .ended o) (event : ReaderEvent) : r.advance budget event = none := by
  cases event <;> simp only [advance, h]

/-- The steps a loop can still take, at most. -/
def remaining (r : Reader) : ℕ :=
  3 * r.pending.length +
    match r.phase with
    | .reading => 1
    | .spending _ => 3
    | .storing _ => 2
    | .ended _ => 0

theorem advance_remaining {budget budget' : ℕ} {r r' : Reader} {event : ReaderEvent}
    (h : r.advance budget event = some (budget', r')) : r'.remaining < r.remaining := by
  cases advance_cases h with
  | read size here pos inside =>
      simp only [remaining, here, List.length_drop]
      omega
  | drained here _ =>
      simp only [remaining, here]
      omega
  | spent _ here _ =>
      simp only [remaining, here]
      omega
  | refused _ here _ =>
      simp only [remaining, here]
      omega
  | skipped _ here _ =>
      simp only [remaining, here]
      omega
  | stored _ _ here _ _ =>
      simp only [remaining, here]
      omega
  | unstored _ _ here _ _ =>
      simp only [remaining, here]
      omega

end Reader

/-! ## §2  Both loops -/

namespace Draining

variable {out err : Bytes} {s s' : Draining}

/-- The pipe of each loop. -/
def source (out err : Bytes) : Pipe → Bytes
  | .stdout => out
  | .stderr => err

def other : Pipe → Pipe
  | .stdout => .stderr
  | .stderr => .stdout

/-- The invariant of the two loops. -/
structure Balanced (out err : Bytes) (s : Draining) : Prop where
  tracks : ∀ p, (s.reader p).Tracks (source out err p)
  roomy : ∀ p, (s.reader p).Roomy
  collects : s.stdout.collect = true
  budget : s.budget + s.stdout.accepted + s.stderr.accepted = outputLimit
  exceeded : ∀ p e, (s.reader p).phase = .ended (.err e) →
    outputLimit < out.length + err.length

theorem balanced_new (out err : Bytes) : Balanced out err (new out err) := by
  refine ⟨fun p => ?_, fun p => ?_, rfl, rfl, fun p e h => ?_⟩
  · cases p <;> exact Reader.tracks_new _ _
  · cases p
    · exact fun _ => rfl
    · exact fun h => absurd h (by simp [new, reader, Reader.new])
  · cases p <;> exact absurd h (by simp [new, reader, Reader.new])

theorem eq_or_other (p q : Pipe) : q = p ∨ q = other p := by
  cases p <;> cases q <;> simp [other]

/-- The budget, seen from one of the two loops. -/
theorem budget_iff (p : Pipe) {n : ℕ} :
    n + s.stdout.accepted + s.stderr.accepted = outputLimit ↔
      n + (s.reader p).accepted + (s.reader (other p)).accepted = outputLimit := by
  cases p with
  | stdout => exact Iff.rfl
  | stderr =>
      simp only [reader, other]
      omega

theorem length_source (p : Pipe) :
    (source out err p).length + (source out err (other p)).length = out.length + err.length := by
  cases p with
  | stdout => rfl
  | stderr => exact Nat.add_comm _ _

theorem step_cases {event : Pipe × ReaderEvent} (h : s.step event = some s') :
    ∃ budget r, (s.reader event.1).advance s.budget event.2 = some (budget, r) ∧
      s' = { s.setReader r event.1 with budget := budget } := by
  unfold step at h
  obtain ⟨⟨budget, r⟩, hadvance, hs'⟩ := Option.bind_eq_some_iff.mp h
  exact ⟨budget, r, hadvance, (Option.some.inj hs').symm⟩

/-- A step of either loop keeps the account. -/
theorem Balanced.step {event : Pipe × ReaderEvent} (h : Balanced out err s)
    (hstep : s.step event = some s') : Balanced out err s' := by
  obtain ⟨p, event⟩ := event
  obtain ⟨budget, r, hadvance, rfl⟩ := step_cases hstep
  simp only at hadvance
  have haccount := (budget_iff p).mp h.budget
  obtain ⟨htracks, hroomy, hbalance, hrefused⟩ :=
    Reader.advance_spec (h.tracks p) (h.roomy p) (by omega) hadvance
  have hkeeps : r.collect = (s.reader p).collect := by
    cases Reader.advance_cases hadvance <;> rfl
  have hself : ({ s.setReader r p with budget := budget } : Draining).reader p = r := by
    cases p <;> rfl
  have hsibling : ({ s.setReader r p with budget := budget } : Draining).reader (other p) =
      s.reader (other p) := by
    cases p <;> rfl
  refine ⟨fun q => ?_, fun q => ?_, ?_, ?_, fun q e hq => ?_⟩
  · rcases eq_or_other p q with rfl | rfl
    · rw [hself]
      exact htracks
    · rw [hsibling]
      exact h.tracks _
  · rcases eq_or_other p q with rfl | rfl
    · rw [hself]
      exact hroomy
    · rw [hsibling]
      exact h.roomy _
  · cases p with
    | stdout => exact hkeeps.trans h.collects
    | stderr => exact h.collects
  · refine (budget_iff p).mpr ?_
    rw [hself, hsibling]
    change budget + r.accepted + (s.reader (other p)).accepted = outputLimit
    omega
  · rcases eq_or_other p q with rfl | rfl
    · -- the refused bytes and what was accepted exceed the limit
      rw [hself] at hq
      have hlt := hrefused e hq
      have hle := (h.tracks (other q)).accepted_le
      have hsum := @length_source out err q
      omega
    · rw [hsibling] at hq
      exact h.exceeded _ e hq

theorem Balanced.run {events : List (Pipe × ReaderEvent)}
    (hrun : runSteps Draining.step events (new out err) = some s) : Balanced out err s :=
  runSteps.invariant (balanced_new out err) (fun _ _ _ h hstep => h.step hstep) hrun

/-- Nothing goes on exactly when both loops have ended. -/
theorem halted_iff :
    (∀ event, s.step event = none) ↔ ∀ p, ∃ o, (s.reader p).phase = .ended o := by
  constructor
  · intro h p
    rcases Reader.advance_progress s.budget (s.reader p) with hended | ⟨event, hsome⟩
    · exact hended
    · obtain ⟨next, hnext⟩ := Option.isSome_iff_exists.mp hsome
      have hstep := h (p, event)
      simp [step, hnext] at hstep
  · rintro h ⟨p, event⟩
    obtain ⟨o, ho⟩ := h p
    simp only [step, Reader.advance_ended ho event]
    rfl

def remaining (s : Draining) : ℕ := s.stdout.remaining + s.stderr.remaining

theorem step_remaining {event : Pipe × ReaderEvent} (h : s.step event = some s') :
    s'.remaining < s.remaining := by
  obtain ⟨p, event⟩ := event
  obtain ⟨budget, r, hadvance, rfl⟩ := step_cases h
  have hless := Reader.advance_remaining hadvance
  cases p with
  | stdout => exact Nat.add_lt_add_right hless _
  | stderr => exact Nat.add_lt_add_left hless _

/-- What a loop that has ended returns. -/
theorem Balanced.ended (h : Balanced out err s) {p : Pipe}
    {o : Outcome TransportError SecretBytes} (ho : (s.reader p).phase = .ended o) :
    (∃ output, o = .ok output ∧ (s.reader p).accepted = (source out err p).length ∧
      ((s.reader p).collect = true → output.bytes = source out err p)) ∨
    (o = .err (.discovery .outputLimit) ∧ outputLimit < out.length + err.length) := by
  obtain ⟨stored, hstored, hphase⟩ := h.tracks p
  rw [ho] at hphase
  cases o with
  | ok output =>
      obtain ⟨hpipe, haccepted, rfl⟩ := hphase
      refine Or.inl ⟨_, rfl, by rw [haccepted, hpipe], fun hcollect => ?_⟩
      rw [hstored hcollect, hpipe]
  | err e =>
      obtain ⟨rfl, -⟩ := hphase
      exact Or.inr ⟨rfl, h.exceeded p _ ho⟩
  | panic => exact hphase.elim
  | dropped => exact hphase.elim

/-- **The output budget is exact.** In every state of every interleaving the bytes
accepted and the budget add up to the limit, and a loop fails only with
`OutputLimit`, when the two streams together exceed it. Some loop can go on until
both have ended, which every run reaches; the collected output is then all of
stdout, or one of them has failed, by the sum of the two lengths alone. -/
theorem budget_exact (out err : Bytes) (events : List (Pipe × ReaderEvent)) (s : Draining)
    (hrun : runSteps Draining.step events (new out err) = some s) :
    s.budget + (s.stdout.accepted + s.stderr.accepted) = 1024 * 1024 ∧
    (∀ p o, (s.reader p).phase = .ended o →
      (∃ output, o = .ok output) ∨
        (o = .err (.discovery .outputLimit) ∧ 1024 * 1024 < out.length + err.length)) ∧
    ((∀ event, s.step event = none) ↔ ∀ p, ∃ o, (s.reader p).phase = .ended o) ∧
    events.length ≤ 3 * (out.length + err.length) + 2 ∧
    ∀ o o', s.stdout.phase = .ended o → s.stderr.phase = .ended o' →
      (out.length + err.length ≤ 1024 * 1024 →
        (∃ output, o = .ok output ∧ output.bytes = out) ∧ ∃ output', o' = .ok output') ∧
      (1024 * 1024 < out.length + err.length →
        o = .err (.discovery .outputLimit) ∨ o' = .err (.discovery .outputLimit)) := by
  have hbalanced : Balanced out err s := Balanced.run hrun
  have hbudget := hbalanced.budget
  have hlimit : outputLimit = 1024 * 1024 := rfl
  refine ⟨by omega, fun p o ho => ?_, halted_iff, ?_, fun o o' ho ho' => ⟨fun hfits => ?_,
    fun hexceeds => ?_⟩⟩
  · rcases hbalanced.ended ho with ⟨output, rfl, -⟩ | hfailed
    · exact Or.inl ⟨output, rfl⟩
    · exact Or.inr hfailed
  · have hbound := @runSteps.length_le _ _ Draining.step events (new out err) s (fun _ => True)
      remaining trivial (fun _ _ _ _ hstep => ⟨trivial, step_remaining hstep⟩) hrun
    have hstart : (new out err).remaining = 3 * out.length + 1 + (3 * err.length + 1) := rfl
    omega
  · rcases @Balanced.ended out err s hbalanced .stdout o ho with
      ⟨output, rfl, -, hbytes⟩ | ⟨-, hover⟩
    · refine ⟨⟨output, rfl, hbytes hbalanced.collects⟩, ?_⟩
      rcases @Balanced.ended out err s hbalanced .stderr o' ho' with
        ⟨output', rfl, -⟩ | ⟨-, hover⟩
      · exact ⟨output', rfl⟩
      · omega
    · omega
  · rcases @Balanced.ended out err s hbalanced .stdout o ho with
      ⟨output, -, haccepted, -⟩ | ⟨hfailed, -⟩
    · rcases @Balanced.ended out err s hbalanced .stderr o' ho' with
        ⟨output', -, haccepted', -⟩ | ⟨hfailed', -⟩
      · -- both streams were accepted in full, which the budget does not allow
        simp only [reader, source] at haccepted haccepted'
        omega
      · exact Or.inr hfailed'
    · exact Or.inl hfailed

/-- Two bytes of stdout in two reads, and one of stderr between them. -/
def interleaved : List (Pipe × ReaderEvent) :=
  [(.stdout, .read 1), (.stderr, .read 1), (.stderr, .spend), (.stdout, .spend), (.stdout, .store),
    (.stdout, .read 1), (.stdout, .spend), (.stderr, .store), (.stdout, .store),
    (.stdout, .read 1), (.stderr, .read 1)]

theorem budget_exact_interleaved :
    ∃ s, runSteps Draining.step interleaved (new [47, 10] [33]) = some s ∧
      s.budget + (s.stdout.accepted + s.stderr.accepted) = 1024 * 1024 := by
  have hrun : (runSteps Draining.step interleaved (new [47, 10] [33])).isSome = true := by
    decide +kernel
  obtain ⟨s, hs⟩ := Option.isSome_iff_exists.mp hrun
  exact ⟨s, hs, (budget_exact _ _ _ _ hs).1⟩

end Draining

end Assuan
