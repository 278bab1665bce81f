import Assuan.Foundation.Action

/-!
# Two runs side by side

`Coupled bad P r r'` relates the ends of two runs, possibly over different
states: both have the same outcome, a value `a` leaves states related by `P a`,
and a failure leaves states related by `bad`. The rules below follow the
structure of an action on both sides at once, so that a simulation is proved
operation by operation.
-/

namespace Assuan

namespace Action

variable {σ τ σ' τ' ε ε' α β : Type}

inductive Coupled (bad : σ → τ → Prop) (P : α → σ → τ → Prop) :
    Outcome ε α × σ → Outcome ε α × τ → Prop where
  | ok {a : α} {s : σ} {t : τ} (h : P a s t) : Coupled bad P (.ok a, s) (.ok a, t)
  | failed {o : Outcome ε α} {s : σ} {t : τ} (ho : o.Failed) (h : bad s t) :
      Coupled bad P (o, s) (o, t)

section Coupled

variable {bad : σ → τ → Prop} {P : α → σ → τ → Prop} {Q : β → σ → τ → Prop} {s : σ} {t : τ}

theorem Coupled.outcome {r : Outcome ε α × σ} {r' : Outcome ε α × τ} (h : Coupled bad P r r') :
    r.1 = r'.1 := by
  cases h with
  | ok h => rfl
  | failed ho h => rfl

theorem Coupled.mono {bad' : σ → τ → Prop} {P' : α → σ → τ → Prop} {r : Outcome ε α × σ}
    {r' : Outcome ε α × τ} (h : Coupled bad P r r') (hbad : ∀ s t, bad s t → bad' s t)
    (hP : ∀ a s t, P a s t → P' a s t) : Coupled bad' P' r r' := by
  cases h with
  | ok h => exact .ok (hP _ _ _ h)
  | failed ho h => exact .failed ho (hbad _ _ h)

/-- What is known of each side by itself. -/
theorem Coupled.post {x : Action σ ε α} {y : Action τ ε α} {A : Outcome ε α → σ → Prop}
    {B : Outcome ε α → τ → Prop} (h : Coupled bad P (x s) (y t)) (hx : Post x s A)
    (hy : Post y t B) :
    Coupled bad (fun a s t => P a s t ∧ A (.ok a) s ∧ B (.ok a) t) (x s) (y t) := by
  rcases hrun : x s with ⟨o, s'⟩
  rcases hrun' : y t with ⟨o', t'⟩
  have hA := hx.elim hrun
  have hB := hy.elim hrun'
  rw [hrun, hrun'] at h
  cases h with
  | ok h => exact .ok ⟨h, hA, hB⟩
  | failed ho h => exact .failed ho h

/-- Where failures leave no less than values do, the states are related either way. -/
theorem Coupled.states {R : σ → τ → Prop} {r : Outcome ε α × σ} {r' : Outcome ε α × τ}
    (h : Coupled R P r r') (hP : ∀ a s t, P a s t → R s t) : R r.2 r'.2 := by
  cases h with
  | ok h => exact hP _ _ _ h
  | failed ho h => exact h

theorem coupled_pure {a : α} (h : P a s t) :
    Coupled bad P ((pure a : Action σ ε α) s) ((pure a : Action τ ε α) t) := .ok h

theorem coupled_lift {o : Outcome ε α} (hok : ∀ a, o = .ok a → P a s t)
    (hfail : o.Failed → bad s t) : Coupled bad P (lift o s) (lift o t) := by
  rcases o.ok_or_failed with ⟨a, rfl⟩ | ho
  · exact .ok (hok a rfl)
  · exact .failed ho (hfail ho)

theorem Coupled.bind {x : Action σ ε α} {y : Action τ ε α} {f : α → Action σ ε β}
    {g : α → Action τ ε β} (h : Coupled bad P (x s) (y t))
    (hok : ∀ a s t, P a s t → Coupled bad Q (f a s) (g a t)) :
    Coupled bad Q ((x >>= f) s) ((y >>= g) t) := by
  rcases hx : x s with ⟨o, s'⟩
  rcases hy : y t with ⟨o', t'⟩
  rw [hx, hy] at h
  cases h with
  | ok h =>
      rw [bind_ok hx, bind_ok hy]
      exact hok _ _ _ h
  | failed ho h =>
      rw [bind_failed hx ho, bind_failed hy ho]
      exact .failed ho.relabel h

/-- A first step that reads the state. -/
theorem coupled_get {f : σ → Action σ ε β} {g : τ → Action τ ε β}
    (h : Coupled bad Q (f s s) (g t t)) : Coupled bad Q ((get >>= f) s) ((get >>= g) t) := h

/-- A first step that is the same computation on both sides. -/
theorem coupled_lift_bind {o : Outcome ε α} {f : α → Action σ ε β} {g : α → Action τ ε β}
    (hok : ∀ a, o = .ok a → Coupled bad Q (f a s) (g a t)) (hfail : o.Failed → bad s t) :
    Coupled bad Q ((lift o >>= f) s) ((lift o >>= g) t) := by
  apply Coupled.bind (P := fun a s' t' => o = .ok a ∧ s' = s ∧ t' = t)
  · exact coupled_lift (fun a ha => ⟨ha, rfl, rfl⟩) hfail
  · rintro a _ _ ⟨ha, rfl, rfl⟩
    exact hok a ha

theorem coupled_modify_bind {f : σ → σ} {g : τ → τ} {x : Unit → Action σ ε β}
    {y : Unit → Action τ ε β} (h : Coupled bad Q (x () (f s)) (y () (g t))) :
    Coupled bad Q ((modify f >>= x) s) ((modify g >>= y) t) := h

/-- What the cleanups make of the states that a failure leaves. -/
theorem Coupled.onFailure {M : σ → τ → Prop} {cleanup : σ → σ} {cleanup' : τ → τ}
    {x : Action σ ε α} {y : Action τ ε α} (h : Coupled M P (x s) (y t))
    (hbad : ∀ s t, M s t → bad (cleanup s) (cleanup' t)) :
    Coupled bad P (Action.onFailure cleanup x s) (Action.onFailure cleanup' y t) := by
  rcases hx : x s with ⟨o, s'⟩
  rcases hy : y t with ⟨o', t'⟩
  rw [hx, hy] at h
  cases h with
  | ok h =>
      rw [onFailure_ok hx, onFailure_ok hy]
      exact .ok h
  | failed ho h =>
      rw [onFailure_failed hx ho, onFailure_failed hy ho]
      exact .failed ho (hbad _ _ h)

theorem Coupled.mapErr {f : ε → ε'} {x : Action σ ε α} {y : Action τ ε α}
    (h : Coupled bad P (x s) (y t)) : Coupled bad P (Action.mapErr f x s) (Action.mapErr f y t) := by
  rcases hx : x s with ⟨o, s'⟩
  rcases hy : y t with ⟨o', t'⟩
  rw [hx, hy] at h
  rw [mapErr_apply hx, mapErr_apply hy]
  cases h with
  | ok h => exact .ok h
  | failed ho h => exact .failed (ho.mapErr f) h

/-- Components that are coupled, within states that are otherwise related. -/
theorem Coupled.zoom {part : σ' → σ} {put : σ' → σ → σ'} {part' : τ' → τ} {put' : τ' → τ → τ'}
    {x : Action σ ε α} {y : Action τ ε α} {s : σ'} {t : τ'} {bad' : σ' → τ' → Prop}
    {P' : α → σ' → τ' → Prop} (h : Coupled bad P (x (part s)) (y (part' t)))
    (hbad : ∀ u v, bad u v → bad' (put s u) (put' t v))
    (hP : ∀ a u v, P a u v → P' a (put s u) (put' t v)) :
    Coupled bad' P' (Action.zoom part put x s) (Action.zoom part' put' y t) := by
  rcases hx : x (part s) with ⟨o, s'⟩
  rcases hy : y (part' t) with ⟨o', t'⟩
  rw [hx, hy] at h
  rw [zoom_apply hx, zoom_apply hy]
  cases h with
  | ok h => exact .ok (hP _ _ _ h)
  | failed ho h => exact .failed ho (hbad _ _ h)

/-- Two loops in step, with an invariant between their states. -/
theorem Coupled.forEach {I : σ → τ → Prop} {f : α → Action σ ε Unit} {g : α → Action τ ε Unit}
    {xs : List α} (hinit : I s t)
    (hstep : ∀ a ∈ xs, ∀ s t, I s t → Coupled bad (fun _ => I) (f a s) (g a t)) :
    Coupled bad (fun _ => I) (Action.forEach f xs s) (Action.forEach g xs t) := by
  induction xs generalizing s t with
  | nil => exact coupled_pure hinit
  | cons a xs ih =>
      apply Coupled.bind (hstep a List.mem_cons_self s t hinit)
      intro _ s t h
      apply ih h
      intro b hb
      exact hstep b (List.mem_cons_of_mem _ hb)

end Coupled

/-! ## Actions that match -/

/-- Run from related states, `x` and `y` end alike: in related states, or with a
failure in states related by `bad`. -/
def Matches (bad R : σ → τ → Prop) (x : Action σ ε α) (y : Action τ ε α) : Prop :=
  ∀ s t, R s t → Coupled bad (fun _ => R) (x s) (y t)

/-- An action that cannot tell related states apart. -/
abbrev Respects (bad R : σ → σ → Prop) (x : Action σ ε α) : Prop := Matches bad R x x

section Matches

variable {bad R : σ → τ → Prop}

theorem matches_pure (a : α) :
    Matches bad R (pure a : Action σ ε α) (pure a : Action τ ε α) := fun _ _ h => .ok h

theorem matches_lift (hbad : ∀ s t, R s t → bad s t) (o : Outcome ε α) :
    Matches bad R (lift o : Action σ ε α) (lift o : Action τ ε α) :=
  fun s t h => coupled_lift (fun _ _ => h) fun _ => hbad s t h

theorem matches_modify {f : σ → σ} {g : τ → τ} (h : ∀ s t, R s t → R (f s) (g t)) :
    Matches bad R (modify f : Action σ ε Unit) (modify g : Action τ ε Unit) :=
  fun s t hR => .ok (h s t hR)

theorem Matches.bind {x : Action σ ε α} {y : Action τ ε α} {f : α → Action σ ε β}
    {g : α → Action τ ε β} (hx : Matches bad R x y) (hf : ∀ a, Matches bad R (f a) (g a)) :
    Matches bad R (x >>= f) (y >>= g) :=
  fun s t h => Coupled.bind (hx s t h) fun a s t h => hf a s t h

/-- What is looked up in the states is related, and may be used. -/
theorem matches_get {f : σ → Action σ ε β} {g : τ → Action τ ε β}
    (h : ∀ s t, R s t → Coupled bad (fun _ => R) (f s s) (g t t)) :
    Matches bad R (get >>= f) (get >>= g) := h

theorem Matches.mapErr {f : ε → ε'} {x : Action σ ε α} {y : Action τ ε α}
    (hx : Matches bad R x y) : Matches bad R (Action.mapErr f x) (Action.mapErr f y) :=
  fun s t h => (hx s t h).mapErr

theorem Matches.onFailure {M : σ → τ → Prop} {cleanup : σ → σ} {cleanup' : τ → τ}
    {x : Action σ ε α} {y : Action τ ε α} (hx : Matches M R x y)
    (hbad : ∀ s t, M s t → bad (cleanup s) (cleanup' t)) :
    Matches bad R (Action.onFailure cleanup x) (Action.onFailure cleanup' y) :=
  fun s t h => (hx s t h).onFailure hbad

theorem Matches.forEach {f : α → Action σ ε Unit} {g : α → Action τ ε Unit} {xs : List α}
    (h : ∀ a ∈ xs, Matches bad R (f a) (g a)) :
    Matches bad R (Action.forEach f xs) (Action.forEach g xs) :=
  fun _ _ hR => Coupled.forEach hR fun a ha s t hR => h a ha s t hR

end Matches

end Action

end Assuan
