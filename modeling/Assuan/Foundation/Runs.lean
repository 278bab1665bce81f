import Mathlib.Data.List.Induction
import Mathlib.Tactic.Common
import Assuan.Foundation.Outcome

/-!
# Runs of a step function

A system takes labelled steps, some of which are not possible in some states. A
run is a list of labels; what is proved of it by induction may mention the labels
that have been used. A machine has one step from every state, which may fail.
-/

namespace Assuan

variable {σ ε : Type}

/-- All steps, in their order. -/
def runSteps (step : σ → ε → Option σ) (events : List ε) (s : σ) : Option σ :=
  events.foldlM step s

namespace runSteps

variable {step : σ → ε → Option σ} {events : List ε} {s t : σ}

theorem append_eq_some {before after : List ε} :
    runSteps step (before ++ after) s = some t ↔
      ∃ middle, runSteps step before s = some middle ∧ runSteps step after middle = some t := by
  rw [runSteps, List.foldlM_append]
  exact Option.bind_eq_some_iff

theorem cons_eq_some {event : ε} :
    runSteps step (event :: events) s = some t ↔
      ∃ middle, step s event = some middle ∧ runSteps step events middle = some t := by
  rw [runSteps, List.foldlM_cons]
  exact Option.bind_eq_some_iff

/-- What holds at first and goes on to hold, with the labels so far. -/
theorem history {P : List ε → σ → Prop} (hstart : P [] s)
    (hstep : ∀ events t event t', P events t → step t event = some t' → P (events ++ [event]) t')
    (hrun : runSteps step events s = some t) : P events t := by
  induction events using List.reverseRecOn generalizing t with
  | nil =>
      obtain rfl := Option.some.inj hrun
      exact hstart
  | append_singleton events event ih =>
      obtain ⟨middle, hbefore, hlast⟩ := append_eq_some.mp hrun
      obtain ⟨t', hnow, hend⟩ := cons_eq_some.mp hlast
      obtain rfl := Option.some.inj hend
      exact hstep events middle event t' (ih hbefore) hnow

/-- An invariant is a history that forgets the labels. -/
theorem invariant {I : σ → Prop} (hstart : I s)
    (hstep : ∀ t event t', I t → step t event = some t' → I t')
    (hrun : runSteps step events s = some t) : I t :=
  history (P := fun _ => I) hstart (fun _ t event t' => hstep t event t') hrun

/-- A measure that every step decreases bounds the length of a run. -/
theorem length_le {I : σ → Prop} {measure : σ → ℕ} (hstart : I s)
    (hstep : ∀ t event t', I t → step t event = some t' → I t' ∧ measure t' < measure t)
    (hrun : runSteps step events s = some t) : events.length + measure t ≤ measure s := by
  have h : I t ∧ events.length + measure t ≤ measure s := by
    apply history (P := fun events t => I t ∧ events.length + measure t ≤ measure s) _ _ hrun
    · exact ⟨hstart, by simp⟩
    · rintro events t event t' ⟨hI, hle⟩ hnow
      obtain ⟨hI', hlt⟩ := hstep t event t' hI hnow
      refine ⟨hI', ?_⟩
      rw [List.length_append, List.length_singleton]
      omega
  exact h.2

end runSteps

/-! ## Journals -/

/-- Every entry is allowed by those before it. -/
inductive Warranted (allowed : List ε → ε → Prop) : List ε → Prop
  | nil : Warranted allowed []
  | snoc {entries : List ε} {entry : ε} : Warranted allowed entries → allowed entries entry →
      Warranted allowed (entries ++ [entry])

theorem Warranted.entry {allowed : List ε → ε → Prop} {before after : List ε} {entry : ε}
    (h : Warranted allowed (before ++ entry :: after)) : allowed before entry := by
  induction after using List.reverseRecOn with
  | nil =>
      generalize hentries : before ++ [entry] = entries at h
      cases h with
      | nil => exact absurd hentries (by simp)
      | snoc hbefore hlast =>
          obtain ⟨rfl, hsame⟩ := List.append_inj' hentries rfl
          obtain rfl := List.singleton_inj.mp hsame
          exact hlast
  | append_singleton after last ih =>
      generalize hentries : before ++ entry :: (after ++ [last]) = entries at h
      cases h with
      | nil => exact absurd hentries (by simp)
      | @snoc entries entry' hbefore hlast =>
          have hsplit : (before ++ entry :: after) ++ [last] = entries ++ [entry'] := by
            simpa using hentries
          obtain ⟨rfl, -⟩ := List.append_inj' hsplit rfl
          exact ih hbefore

/-! ## Machines -/

/-- `n` steps, up to the first that fails. -/
def stepTimes (step : σ → Outcome ε σ) : ℕ → σ → Outcome ε σ
  | 0, s => .ok s
  | n + 1, s => step s >>= stepTimes step n

namespace stepTimes

variable {step : σ → Outcome ε σ} {s t u : σ}

/-- Where an invariant holds, no step fails. -/
theorem invariant {I : σ → Prop} (hstep : ∀ t, I t → ∃ t', step t = .ok t' ∧ I t') (hstart : I s)
    (n : ℕ) : ∃ t, stepTimes step n s = .ok t ∧ I t := by
  induction n generalizing s with
  | zero => exact ⟨s, rfl, hstart⟩
  | succ n ih =>
      obtain ⟨s', hfirst, hnext⟩ := hstep s hstart
      rw [stepTimes, hfirst, Outcome.ok_bind]
      exact ih hnext

theorem cons {n : ℕ} (hfirst : step s = .ok t) (h : stepTimes step n t = .ok u) :
    stepTimes step (n + 1) s = .ok u := by
  rw [stepTimes, hfirst, Outcome.ok_bind, h]

theorem trans {m n : ℕ} (h : stepTimes step m s = .ok t) (h' : stepTimes step n t = .ok u) :
    ∃ k, stepTimes step k s = .ok u := by
  induction m generalizing s with
  | zero =>
      obtain rfl := Outcome.ok.inj h
      exact ⟨n, h'⟩
  | succ m ih =>
      obtain ⟨s', hfirst, hrest⟩ := Outcome.bind_eq_ok.mp h
      obtain ⟨k, hk⟩ := ih hrest
      exact ⟨k + 1, cons hfirst hk⟩

end stepTimes

end Assuan
