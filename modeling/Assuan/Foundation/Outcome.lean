import Mathlib.Tactic.Common

/-!
# Outcomes of imperative functions

A function of the source ends in one of four ways. It returns a value, it
returns an error, it panics (an index out of range, an overflowing unchecked
operation), or, when it is asynchronous, its future is dropped while it waits.
All four are explicit here, so that "never panics" is a statement about the
model and not a convention of it.
-/

namespace Assuan

/-- Raw bytes: `&[u8]`, `Vec<u8>` and what a stream carries. -/
abbrev Bytes : Type := List UInt8

inductive Outcome (ε α : Type) : Type where
  | ok (value : α)
  | err (error : ε)
  | panic
  | dropped
deriving DecidableEq, Repr

namespace Outcome

variable {ε ε' α β : Type}

protected def bind (x : Outcome ε α) (f : α → Outcome ε β) : Outcome ε β :=
  match x with
  | ok a => f a
  | err e => err e
  | panic => panic
  | dropped => dropped

instance : Monad (Outcome ε) where
  pure := ok
  bind := Outcome.bind

/-- `map_err`: values, panics and drops pass through. -/
def mapErr (f : ε → ε') : Outcome ε α → Outcome ε' α
  | ok a => ok a
  | err e => err (f e)
  | panic => panic
  | dropped => dropped

/-- `Option::ok_or`. -/
def okOr (e : ε) : Option α → Outcome ε α
  | some a => ok a
  | none => err e

/-- An indexing expression: `none` is the panic of an index out of range. -/
def index : Option α → Outcome ε α
  | some a => ok a
  | none => panic

@[simp] theorem pure_eq (a : α) : (pure a : Outcome ε α) = ok a := rfl

@[simp] theorem ok_bind (a : α) (f : α → Outcome ε β) : (ok a >>= f) = f a := rfl

@[simp] theorem err_bind (e : ε) (f : α → Outcome ε β) :
    ((err e : Outcome ε α) >>= f) = err e := rfl

@[simp] theorem panic_bind (f : α → Outcome ε β) :
    ((panic : Outcome ε α) >>= f) = panic := rfl

@[simp] theorem dropped_bind (f : α → Outcome ε β) :
    ((dropped : Outcome ε α) >>= f) = dropped := rfl

@[simp] theorem okOr_some (e : ε) (a : α) : okOr e (some a) = ok a := rfl

@[simp] theorem okOr_none (e : ε) : okOr e (none : Option α) = err e := rfl

@[simp] theorem index_some (a : α) : (index (some a) : Outcome ε α) = ok a := rfl

@[simp] theorem index_none : (index (none : Option α) : Outcome ε α) = panic := rfl

@[simp] theorem mapErr_ok (f : ε → ε') (a : α) : mapErr f (ok a) = ok a := rfl

@[simp] theorem mapErr_err (f : ε → ε') (e : ε) :
    mapErr f (err e : Outcome ε α) = err (f e) := rfl

theorem bind_eq_ok {x : Outcome ε α} {f : α → Outcome ε β} {b : β} :
    (x >>= f) = ok b ↔ ∃ a, x = ok a ∧ f a = ok b := by
  cases x <;> simp

theorem bind_eq_err {x : Outcome ε α} {f : α → Outcome ε β} {e : ε} :
    (x >>= f) = err e ↔ x = err e ∨ ∃ a, x = ok a ∧ f a = err e := by
  cases x <;> simp

theorem bind_ne_panic {x : Outcome ε α} {f : α → Outcome ε β} (hx : x ≠ panic)
    (hf : ∀ a, x = ok a → f a ≠ panic) : (x >>= f) ≠ panic := by
  cases x with
  | ok a => exact hf a rfl
  | err e => simp
  | panic => exact absurd rfl hx
  | dropped => simp

theorem okOr_eq_ok {e : ε} {o : Option α} {a : α} : okOr e o = ok a ↔ o = some a := by
  cases o <;> simp

theorem index_eq_ok {o : Option α} {a : α} :
    (index o : Outcome ε α) = ok a ↔ o = some a := by
  cases o <;> simp

/-- A value or an error: neither a panic nor a dropped future. -/
def Returns (o : Outcome ε α) : Prop := (∃ a, o = ok a) ∨ ∃ e, o = err e

theorem returns_ok (a : α) : (ok a : Outcome ε α).Returns := Or.inl ⟨a, rfl⟩

theorem returns_err (e : ε) : (err e : Outcome ε α).Returns := Or.inr ⟨e, rfl⟩

theorem returns_okOr (e : ε) (o : Option α) : (okOr e o).Returns := by
  cases o with
  | none => exact returns_err e
  | some a => exact returns_ok a

theorem Returns.bind {x : Outcome ε α} {f : α → Outcome ε β} (h : x.Returns)
    (hf : ∀ a, x = ok a → (f a).Returns) : (x >>= f).Returns := by
  rcases h with ⟨a, rfl⟩ | ⟨e, rfl⟩
  · exact hf a rfl
  · exact returns_err e

theorem Returns.mapErr {x : Outcome ε α} (h : x.Returns) (f : ε → ε') : (x.mapErr f).Returns := by
  rcases h with ⟨a, rfl⟩ | ⟨e, rfl⟩
  · exact returns_ok a
  · exact returns_err (f e)

end Outcome

/-! ## Machine integers

`usize` values are natural numbers; the checked operations compare with the
largest `usize` of a 64-bit target. -/

def usizeMax : ℕ := 0xFFFFFFFFFFFFFFFF

def u32Max : ℕ := 0xFFFFFFFF

/-- `checked_add` of an unsigned type whose largest value is `max`. -/
def checkedAdd (max a b : ℕ) : Option ℕ :=
  if a + b ≤ max then some (a + b) else none

/-- `checked_mul` of an unsigned type whose largest value is `max`. -/
def checkedMul (max a b : ℕ) : Option ℕ :=
  if a * b ≤ max then some (a * b) else none

theorem checkedAdd_eq_some {max a b c : ℕ} :
    checkedAdd max a b = some c ↔ a + b ≤ max ∧ c = a + b := by
  unfold checkedAdd
  by_cases h : a + b ≤ max
  · simp [h, eq_comm]
  · simp [h]

theorem checkedAdd_eq_none {max a b : ℕ} : checkedAdd max a b = none ↔ max < a + b := by
  unfold checkedAdd
  by_cases h : a + b ≤ max
  · simp [h]
  · simp [h, Nat.lt_of_not_le h]

/-- Two checked sums in a row overflow exactly when the whole sum does. -/
theorem checkedAdd_bind (max a b c : ℕ) :
    (checkedAdd max a b).bind (checkedAdd max · c) = checkedAdd max (a + b) c := by
  by_cases h : a + b ≤ max
  · rw [checkedAdd_eq_some.mpr ⟨h, rfl⟩, Option.bind_some]
  · have hover : max < a + b := Nat.lt_of_not_le h
    rw [checkedAdd_eq_none.mpr hover, Option.bind_none,
      checkedAdd_eq_none.mpr (Nat.lt_of_lt_of_le hover (Nat.le_add_right _ _))]

theorem checkedMul_eq_some {max a b c : ℕ} :
    checkedMul max a b = some c ↔ a * b ≤ max ∧ c = a * b := by
  unfold checkedMul
  by_cases h : a * b ≤ max
  · simp [h, eq_comm]
  · simp [h]

section Limited

variable {ε α : Type} {max limit a b : ℕ} {overflow exceeded : ε} {f : ℕ → Outcome ε α}

/-- A checked sum within a limit of its type goes on. -/
theorem Outcome.checkedSum_le (hmax : limit ≤ max) (h : a + b ≤ limit) :
    (okOr overflow (checkedAdd max a b) >>= fun sum =>
      if sum > limit then .err exceeded else f sum) = f (a + b) := by
  rw [checkedAdd_eq_some.mpr ⟨Nat.le_trans h hmax, rfl⟩, okOr_some, ok_bind,
    if_neg (Nat.not_lt.mpr h)]

/-- Over the limit it is an error, also where the sum overflows. -/
theorem Outcome.checkedSum_gt (h : limit < a + b) :
    (okOr overflow (checkedAdd max a b) >>= fun sum =>
      if sum > limit then .err exceeded else f sum) = .err overflow ∨
    (okOr overflow (checkedAdd max a b) >>= fun sum =>
      if sum > limit then .err exceeded else f sum) = .err exceeded := by
  cases hsum : checkedAdd max a b with
  | none => exact Or.inl rfl
  | some sum =>
      obtain ⟨-, rfl⟩ := checkedAdd_eq_some.mp hsum
      exact Or.inr (if_pos h)

end Limited

end Assuan
