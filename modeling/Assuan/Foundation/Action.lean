import Assuan.Foundation.Outcome

/-!
# Actions on a state

An asynchronous method of the source takes `&mut self` and may stop at any
`await`. Here it is an action: a function from a state to an outcome and the
state it leaves behind, also when it fails or is dropped. The `?` operator is
the monadic bind. Values with a `Drop` are covered by `onFailure`, and methods
of a component by `zoom`.

`Post` states a property of every way in which an action can end, and the rules
below derive it along the structure of the action.
-/

namespace Assuan

/-- The same end, for a computation of another type; meant for outcomes that are
not `ok`. -/
def Outcome.relabel {ε α β : Type} : Outcome ε α → Outcome ε β
  | .ok _ => .panic
  | .err e => .err e
  | .panic => .panic
  | .dropped => .dropped

/-- Every end but a value. -/
def Outcome.Failed {ε α : Type} (o : Outcome ε α) : Prop := ∀ a, o ≠ .ok a

namespace Outcome

variable {ε α β : Type}

@[simp] theorem failed_err (e : ε) : (err e : Outcome ε α).Failed := by simp [Failed]

@[simp] theorem failed_panic : (panic : Outcome ε α).Failed := by simp [Failed]

@[simp] theorem failed_dropped : (dropped : Outcome ε α).Failed := by simp [Failed]

@[simp] theorem not_failed_ok (a : α) : ¬ (ok a : Outcome ε α).Failed := by simp [Failed]

theorem Failed.relabel {o : Outcome ε α} (h : o.Failed) : (o.relabel : Outcome ε β).Failed := by
  cases o <;> simp_all [Outcome.relabel]

theorem relabel_self {o : Outcome ε α} (h : o.Failed) : (o.relabel : Outcome ε α) = o := by
  cases o with
  | ok a => exact absurd h (by simp)
  | err e => rfl
  | panic => rfl
  | dropped => rfl

theorem Failed.relabel_ne_panic {o : Outcome ε α} (h : o.Failed) (hpanic : o ≠ panic) :
    (o.relabel : Outcome ε β) ≠ panic := by
  cases o <;> simp_all [Outcome.relabel]

theorem failed_mapErr {ε' : Type} {f : ε → ε'} {o : Outcome ε α} : (o.mapErr f).Failed ↔ o.Failed := by
  cases o <;> simp [mapErr]

theorem Failed.mapErr {ε' : Type} {o : Outcome ε α} (h : o.Failed) (f : ε → ε') :
    (o.mapErr f).Failed := failed_mapErr.mpr h

theorem mapErr_eq_panic {ε' : Type} {f : ε → ε'} {o : Outcome ε α} :
    o.mapErr f = panic ↔ o = panic := by
  cases o <;> simp [mapErr]

theorem mapErr_eq_ok {ε' : Type} {f : ε → ε'} {o : Outcome ε α} {a : α} :
    o.mapErr f = ok a ↔ o = ok a := by
  cases o <;> simp [mapErr]

theorem ok_or_failed (o : Outcome ε α) : (∃ a, o = ok a) ∨ o.Failed := by
  cases o <;> simp

theorem ok_of_not_failed {o : Outcome ε α} (h : ¬ o.Failed) : ∃ a, o = ok a :=
  o.ok_or_failed.resolve_right h

end Outcome

def Action (σ ε α : Type) : Type := σ → Outcome ε α × σ

namespace Action

variable {σ τ ε ε' α β : Type}

protected def pure (a : α) : Action σ ε α := fun s => (.ok a, s)

protected def bind (x : Action σ ε α) (f : α → Action σ ε β) : Action σ ε β := fun s =>
  match x s with
  | (.ok a, s) => f a s
  | (.err e, s) => (.err e, s)
  | (.panic, s) => (.panic, s)
  | (.dropped, s) => (.dropped, s)

instance : Monad (Action σ ε) where
  pure := Action.pure
  bind := Action.bind

instance : LawfulMonad (Action σ ε) := LawfulMonad.mk' _
  (by
    intro α x
    funext s
    show Action.bind x Action.pure s = x s
    unfold Action.bind
    rcases x s with ⟨_ | _ | _ | _, _⟩ <;> rfl)
  (by
    intro α β a f
    rfl)
  (by
    intro α β γ x f g
    funext s
    show Action.bind (Action.bind x f) g s = Action.bind x (fun a => Action.bind (f a) g) s
    unfold Action.bind
    rcases x s with ⟨_ | _ | _ | _, _⟩ <;> rfl)

def get : Action σ ε σ := fun s => (.ok s, s)

def modify (f : σ → σ) : Action σ ε Unit := fun s => (.ok (), f s)

/-- A computation that does not touch the state. -/
def lift (o : Outcome ε α) : Action σ ε α := fun s => (o, s)

def throw (e : ε) : Action σ ε α := lift (.err e)

def mapErr (f : ε → ε') (x : Action σ ε α) : Action σ ε' α := fun s =>
  ((x s).1.mapErr f, (x s).2)

/-- A guard whose `Drop` runs `cleanup` unless the action has completed. -/
def onFailure (cleanup : σ → σ) (x : Action σ ε α) : Action σ ε α := fun s =>
  match x s with
  | (.ok a, s) => (.ok a, s)
  | (.err e, s) => (.err e, cleanup s)
  | (.panic, s) => (.panic, cleanup s)
  | (.dropped, s) => (.dropped, cleanup s)

/-- A `match` on the result that runs `cleanup` on an error. A panic or a dropped
future does not come back to it. -/
def onError (cleanup : σ → σ) (x : Action σ ε α) : Action σ ε α := fun s =>
  match x s with
  | (.err e, s) => (.err e, cleanup s)
  | (o, s) => (o, s)

/-- An action of a component of the state. -/
def zoom (part : σ → τ) (put : σ → τ → σ) (x : Action τ ε α) : Action σ ε α := fun s =>
  ((x (part s)).1, put s (x (part s)).2)

/-- A `for` loop whose body may stop it. -/
def forEach (f : α → Action σ ε Unit) : List α → Action σ ε Unit
  | [] => pure ()
  | a :: rest => do
      f a
      forEach f rest

theorem forEach_singleton (f : α → Action σ ε Unit) (a : α) : forEach f [a] = f a :=
  bind_pure (f a)

/-! ## Running an action -/

@[simp] theorem pure_apply (a : α) (s : σ) : (pure a : Action σ ε α) s = (.ok a, s) := rfl

@[simp] theorem get_apply (s : σ) : (get : Action σ ε σ) s = (.ok s, s) := rfl

@[simp] theorem modify_apply (f : σ → σ) (s : σ) :
    (modify f : Action σ ε Unit) s = (.ok (), f s) := rfl

@[simp] theorem lift_apply (o : Outcome ε α) (s : σ) : lift o s = (o, s) := rfl

@[simp] theorem throw_apply (e : ε) (s : σ) : (throw e : Action σ ε α) s = (.err e, s) := rfl

theorem lift_ok_bind (a : α) (f : α → Action σ ε β) : (lift (.ok a) >>= f) = f a := rfl

theorem lift_err_bind (e : ε) (f : α → Action σ ε β) :
    (lift (.err e) >>= f) = lift (.err e) := rfl

theorem bind_ok {x : Action σ ε α} {f : α → Action σ ε β} {s s' : σ} {a : α}
    (h : x s = (.ok a, s')) : (x >>= f) s = f a s' := by
  show Action.bind x f s = _
  rw [Action.bind, h]

theorem bind_failed {x : Action σ ε α} {f : α → Action σ ε β} {s s' : σ} {o : Outcome ε α}
    (h : x s = (o, s')) (ho : o.Failed) : (x >>= f) s = (o.relabel, s') := by
  show Action.bind x f s = _
  rw [Action.bind, h]
  cases o with
  | ok a => exact absurd ho (by simp)
  | err e => rfl
  | panic => rfl
  | dropped => rfl

theorem bind_eq_ok {x : Action σ ε α} {f : α → Action σ ε β} {s t : σ} {b : β} :
    (x >>= f) s = (.ok b, t) ↔ ∃ a s', x s = (.ok a, s') ∧ f a s' = (.ok b, t) := by
  constructor
  · intro h
    rcases hx : x s with ⟨o, s'⟩
    rcases o.ok_or_failed with ⟨a, rfl⟩ | ho
    · rw [bind_ok hx] at h
      exact ⟨a, s', rfl, h⟩
    · rw [bind_failed hx ho] at h
      have hrel : (o.relabel : Outcome ε β) = .ok b := (Prod.mk.inj h).1
      exact absurd hrel (ho.relabel b)
  · rintro ⟨a, s', hx, hf⟩
    rw [bind_ok hx, hf]

theorem onFailure_ok {cleanup : σ → σ} {x : Action σ ε α} {s s' : σ} {a : α}
    (h : x s = (.ok a, s')) : onFailure cleanup x s = (.ok a, s') := by
  rw [onFailure, h]

theorem onFailure_failed {cleanup : σ → σ} {x : Action σ ε α} {s s' : σ} {o : Outcome ε α}
    (h : x s = (o, s')) (ho : o.Failed) : onFailure cleanup x s = (o, cleanup s') := by
  rw [onFailure, h]
  cases o with
  | ok a => exact absurd ho (by simp)
  | err e => rfl
  | panic => rfl
  | dropped => rfl

theorem onError_ok {cleanup : σ → σ} {x : Action σ ε α} {s s' : σ} {a : α}
    (h : x s = (.ok a, s')) : onError cleanup x s = (.ok a, s') := by
  rw [onError, h]

theorem onError_eq_ok {cleanup : σ → σ} {x : Action σ ε α} {s s' : σ} {a : α} :
    onError cleanup x s = (.ok a, s') ↔ x s = (.ok a, s') := by
  rcases hx : x s with ⟨o, t⟩
  rw [onError, hx]
  cases o with
  | err e => simp
  | _ => rfl

theorem mapErr_apply {f : ε → ε'} {x : Action σ ε α} {s s' : σ} {o : Outcome ε α}
    (h : x s = (o, s')) : mapErr f x s = (o.mapErr f, s') := by
  rw [mapErr, h]

theorem zoom_apply {part : σ → τ} {put : σ → τ → σ} {x : Action τ ε α} {s : σ} {t : τ}
    {o : Outcome ε α} (h : x (part s) = (o, t)) : zoom part put x s = (o, put s t) := by
  rw [zoom, h]

/-! ## Properties of every end -/

/-- However `x` ends from `s`, its outcome and final state are related by `Q`. -/
def Post (x : Action σ ε α) (s : σ) (Q : Outcome ε α → σ → Prop) : Prop := Q (x s).1 (x s).2

theorem Post.intro {x : Action σ ε α} {s : σ} {Q : Outcome ε α → σ → Prop}
    (h : ∀ o s', x s = (o, s') → Q o s') : Post x s Q := h _ _ rfl

theorem Post.elim {x : Action σ ε α} {s s' : σ} {Q : Outcome ε α → σ → Prop} {o : Outcome ε α}
    (h : Post x s Q) (hx : x s = (o, s')) : Q o s' := by
  unfold Post at h
  rwa [hx] at h

theorem Post.mono {x : Action σ ε α} {s : σ} {P Q : Outcome ε α → σ → Prop} (h : Post x s P)
    (himp : ∀ o s', P o s' → Q o s') : Post x s Q := himp _ _ h

theorem Post.bind {x : Action σ ε α} {f : α → Action σ ε β} {s : σ}
    {R : Outcome ε α → σ → Prop} {Q : Outcome ε β → σ → Prop} (h : Post x s R)
    (hok : ∀ a s', R (.ok a) s' → Post (f a) s' Q)
    (hfail : ∀ o s', o.Failed → R o s' → Q o.relabel s') : Post (x >>= f) s Q := by
  apply Post.intro
  intro o' t ht
  rcases hx : x s with ⟨o, s'⟩
  have hR := h.elim hx
  rcases o.ok_or_failed with ⟨a, rfl⟩ | ho
  · rw [bind_ok hx] at ht
    exact (hok a s' hR).elim ht
  · rw [bind_failed hx ho] at ht
    obtain ⟨rfl, rfl⟩ := Prod.mk.inj ht
    exact hfail o s' ho hR

/-- A first step whose end is known. -/
theorem Post.bind_ok {x : Action σ ε α} {f : α → Action σ ε β} {s s' : σ} {a : α}
    {Q : Outcome ε β → σ → Prop} (hx : x s = (.ok a, s')) (h : Post (f a) s' Q) :
    Post (x >>= f) s Q := by
  unfold Post at h ⊢
  rwa [Action.bind_ok hx]

theorem Post.bind_failed {x : Action σ ε α} {f : α → Action σ ε β} {s s' : σ} {o : Outcome ε α}
    {Q : Outcome ε β → σ → Prop} (hx : x s = (o, s')) (ho : o.Failed) (h : Q o.relabel s') :
    Post (x >>= f) s Q := by
  unfold Post
  rwa [Action.bind_failed hx ho]

theorem Post.onFailure {cleanup : σ → σ} {x : Action σ ε α} {s : σ}
    {R Q : Outcome ε α → σ → Prop} (h : Post x s R)
    (hok : ∀ a s', R (.ok a) s' → Q (.ok a) s')
    (hfail : ∀ o s', o.Failed → R o s' → Q o (cleanup s')) :
    Post (Action.onFailure cleanup x) s Q := by
  apply Post.intro
  intro o' t ht
  rcases hx : x s with ⟨o, s'⟩
  have hR := h.elim hx
  rcases o.ok_or_failed with ⟨a, rfl⟩ | ho
  · rw [onFailure_ok hx] at ht
    obtain ⟨rfl, rfl⟩ := Prod.mk.inj ht
    exact hok a s' hR
  · rw [onFailure_failed hx ho] at ht
    obtain ⟨rfl, rfl⟩ := Prod.mk.inj ht
    exact hfail o s' ho hR

/-- Only an error comes back to the cleanup. -/
theorem Post.onError {cleanup : σ → σ} {x : Action σ ε α} {s : σ}
    {R Q : Outcome ε α → σ → Prop} (h : Post x s R)
    (herr : ∀ e s', R (.err e) s' → Q (.err e) (cleanup s'))
    (hrest : ∀ o s', (∀ e, o ≠ .err e) → R o s' → Q o s') :
    Post (Action.onError cleanup x) s Q := by
  apply Post.intro
  intro o' t ht
  rcases hx : x s with ⟨o, s'⟩
  have hR := h.elim hx
  rw [Action.onError, hx] at ht
  cases o with
  | err e =>
      obtain ⟨rfl, rfl⟩ := Prod.mk.inj ht
      exact herr e s' hR
  | ok a =>
      obtain ⟨rfl, rfl⟩ := Prod.mk.inj ht
      exact hrest _ s' (by simp) hR
  | panic =>
      obtain ⟨rfl, rfl⟩ := Prod.mk.inj ht
      exact hrest _ s' (by simp) hR
  | dropped =>
      obtain ⟨rfl, rfl⟩ := Prod.mk.inj ht
      exact hrest _ s' (by simp) hR

theorem Post.pure {a : α} {s : σ} {Q : Outcome ε α → σ → Prop} (h : Q (.ok a) s) :
    Post (Pure.pure a) s Q := h

theorem Post.lift {o : Outcome ε α} {s : σ} {Q : Outcome ε α → σ → Prop} (h : Q o s) :
    Post (Action.lift o) s Q := h

theorem Post.get_bind {f : σ → Action σ ε β} {s : σ} {Q : Outcome ε β → σ → Prop}
    (h : Post (f s) s Q) : Post (Action.get >>= f) s Q := h

theorem Post.mapErr {f : ε → ε'} {x : Action σ ε α} {s : σ} {Q : Outcome ε' α → σ → Prop}
    (h : Post x s fun o s' => Q (o.mapErr f) s') : Post (Action.mapErr f x) s Q := h

theorem Post.zoom {part : σ → τ} {put : σ → τ → σ} {x : Action τ ε α} {s : σ}
    {Q : Outcome ε α → σ → Prop} (h : Post x (part s) fun o t => Q o (put s t)) :
    Post (Action.zoom part put x) s Q := h

/-- A loop with an invariant; a round that stops it settles the matter. -/
theorem Post.forEach {f : α → Action σ ε Unit} {I : σ → Prop} {Q : Outcome ε Unit → σ → Prop}
    {xs : List α} {s : σ} (hinit : I s)
    (hstep : ∀ a ∈ xs, ∀ s, I s → Post (f a) s fun o s' =>
      (o = .ok () → I s') ∧ (o.Failed → Q o s'))
    (hdone : ∀ s, I s → Q (.ok ()) s) : Post (Action.forEach f xs) s Q := by
  induction xs generalizing s with
  | nil => exact hdone s hinit
  | cons a xs ih =>
      apply Post.bind (hstep a List.mem_cons_self s hinit)
      · intro _ s' h
        apply ih (h.1 rfl)
        intro b hb
        exact hstep b (List.mem_cons_of_mem _ hb)
      · intro o s' ho h
        rw [Outcome.relabel_self ho]
        exact h.2 ho

/-! ### Invariants -/

/-- However `x` ends, `I` is kept. -/
def Keeps (I : σ → Prop) (x : Action σ ε α) : Prop := ∀ s, I s → I (x s).2

section Keeps

variable {I : σ → Prop}

theorem keeps_pure (a : α) : Keeps I (pure a : Action σ ε α) := fun _ h => h

theorem keeps_lift (o : Outcome ε α) : Keeps I (lift o) := fun _ h => h

theorem keeps_get : Keeps I (get : Action σ ε σ) := fun _ h => h

theorem keeps_modify {f : σ → σ} (h : ∀ s, I s → I (f s)) :
    Keeps I (modify f : Action σ ε Unit) := h

theorem Keeps.bind {x : Action σ ε α} {f : α → Action σ ε β} (hx : Keeps I x)
    (hf : ∀ a, Keeps I (f a)) : Keeps I (x >>= f) := by
  intro s hs
  rcases hrun : x s with ⟨o, s'⟩
  have hs' := hx s hs
  rw [hrun] at hs'
  rcases o.ok_or_failed with ⟨a, rfl⟩ | ho
  · rw [Action.bind_ok hrun]
    exact hf a s' hs'
  · rw [Action.bind_failed hrun ho]
    exact hs'

theorem Keeps.onError {cleanup : σ → σ} {x : Action σ ε α} (h : ∀ s, I s → I (cleanup s))
    (hx : Keeps I x) : Keeps I (Action.onError cleanup x) := by
  intro s hs
  have hs' := hx s hs
  rcases hrun : x s with ⟨o, s'⟩
  rw [hrun] at hs'
  rw [Action.onError, hrun]
  cases o with
  | err e => exact h s' hs'
  | ok a => exact hs'
  | panic => exact hs'
  | dropped => exact hs'

theorem Keeps.forEach {f : α → Action σ ε Unit} {xs : List α} (h : ∀ a ∈ xs, Keeps I (f a)) :
    Keeps I (Action.forEach f xs) := by
  induction xs with
  | nil => exact keeps_pure ()
  | cons a xs ih =>
      apply Keeps.bind (h a List.mem_cons_self)
      intro _
      exact ih fun b hb => h b (List.mem_cons_of_mem _ hb)

end Keeps

/-! ### Errors that do not occur -/

/-- `x` never fails with `e`. -/
def Avoids (e : ε) (x : Action σ ε α) : Prop := ∀ s, (x s).1 ≠ .err e

section Avoids

variable {e : ε}

theorem avoids_pure (a : α) : Avoids e (pure a : Action σ ε α) := fun _ => by simp

theorem avoids_lift {o : Outcome ε α} (h : o ≠ .err e) : Avoids e (lift o : Action σ ε α) :=
  fun _ => h

theorem avoids_modify (f : σ → σ) : Avoids e (modify f : Action σ ε Unit) := fun _ => by simp

theorem Avoids.bind {x : Action σ ε α} {f : α → Action σ ε β} (hx : Avoids e x)
    (hf : ∀ a, Avoids e (f a)) : Avoids e (x >>= f) := by
  intro s
  have hne := hx s
  rcases hrun : x s with ⟨o, s'⟩
  rw [hrun] at hne
  rcases o.ok_or_failed with ⟨a, rfl⟩ | ho
  · rw [Action.bind_ok hrun]
    exact hf a s'
  · rw [Action.bind_failed hrun ho]
    cases o with
    | ok a => exact absurd ho (by simp)
    | err e' => simpa [Outcome.relabel] using hne
    | panic => simp [Outcome.relabel]
    | dropped => simp [Outcome.relabel]

theorem Avoids.onError {cleanup : σ → σ} {x : Action σ ε α} (h : Avoids e x) :
    Avoids e (Action.onError cleanup x) := by
  intro s
  have hne := h s
  rcases hrun : x s with ⟨o, s'⟩
  rw [hrun] at hne
  rw [Action.onError, hrun]
  cases o <;> exact hne

/-- Errors that are wrapped keep apart from those that are not. -/
theorem avoids_mapErr {f : ε' → ε} (x : Action σ ε' α) (h : ∀ e', f e' ≠ e) :
    Avoids e (Action.mapErr f x) := by
  intro s
  rw [Action.mapErr]
  cases (x s).1 with
  | err e' => simpa [Outcome.mapErr] using h e'
  | ok a => simp [Outcome.mapErr]
  | panic => simp [Outcome.mapErr]
  | dropped => simp [Outcome.mapErr]

end Avoids

/-! ### Failures that leave a mark -/

/-- A failure ends in a state with `bad`; a value `a` ends in one with `P a`. -/
def Ends (bad : σ → Prop) (P : α → σ → Prop) (o : Outcome ε α) (s : σ) : Prop :=
  (o.Failed → bad s) ∧ ∀ a, o = .ok a → P a s

section Ends

variable {bad : σ → Prop} {P : α → σ → Prop} {R : β → σ → Prop} {o : Outcome ε α} {s : σ}

theorem Ends.ok {a : α} (h : P a s) : Ends bad P (.ok a : Outcome ε α) s := by
  constructor
  · intro hfail
    exact absurd hfail (by simp)
  · intro b hb
    rwa [← Outcome.ok.inj hb]

theorem Ends.failed (ho : o.Failed) (h : bad s) : Ends bad P o s :=
  ⟨fun _ => h, fun a ha => absurd ha (ho a)⟩

theorem Ends.mono {P' : α → σ → Prop} (h : Ends bad P o s) (himp : ∀ a, P a s → P' a s) :
    Ends bad P' o s := ⟨h.1, fun a ha => himp a (h.2 a ha)⟩

theorem Post.bind_ends {x : Action σ ε α} {f : α → Action σ ε β} (h : Post x s (Ends bad P))
    (hok : ∀ a s', P a s' → Post (f a) s' (Ends bad R)) : Post (x >>= f) s (Ends bad R) := by
  apply Post.bind h
  · intro a s' hends
    exact hok a s' (hends.2 a rfl)
  · intro o s' ho hends
    exact .failed ho.relabel (hends.1 ho)

/-- A loop whose rounds keep an invariant or fail for good. -/
theorem Post.forEach_ends {f : α → Action σ ε Unit} {I : σ → Prop} {xs : List α}
    (hinit : I s) (hstep : ∀ a ∈ xs, ∀ s, I s → Post (f a) s (Ends bad fun _ s' => I s')) :
    Post (Action.forEach f xs) s (Ends bad fun _ s' => I s') := by
  apply Post.forEach (I := I) hinit
  · intro a ha s hs
    apply Post.mono (hstep a ha s hs)
    intro o s' hends
    exact ⟨fun hok => hends.2 () hok, fun ho => .failed ho (hends.1 ho)⟩
  · intro s hs
    exact .ok hs

end Ends

end Action

end Assuan
