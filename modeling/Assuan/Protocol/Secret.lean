import Assuan.Protocol.Command

/-!
# Protected storage (`assuan-protocol/src/secret.rs`, `limits.rs`)
-/

namespace Assuan

/-- `bytes` are the initialized bytes of an allocation that does not grow. -/
structure SecretBytes : Type where
  capacity : ℕ
  bytes : Bytes
  fits : bytes.length ≤ capacity

namespace SecretBytes

theorem fits_append {stored bytes : Bytes} {capacity : ℕ}
    (h : stored.length + bytes.length ≤ capacity) : (stored ++ bytes).length ≤ capacity := by
  rwa [List.length_append]

/-- The allocation with `bytes` after what it holds. -/
def append (capacity : ℕ) (stored bytes : Bytes) (h : stored.length + bytes.length ≤ capacity) :
    SecretBytes :=
  ⟨capacity, stored ++ bytes, fits_append h⟩

/-- `extended_length`. -/
def extendedLength (current additional capacity : ℕ) : Outcome LimitError ℕ := do
  let length ← Outcome.okOr .lengthOverflow (checkedAdd usizeMax current additional)
  if length > capacity then .err .capacityExceeded else .ok length

/-- `extend_from_slice`, with the error of the protocol crate. -/
def extend (storage : SecretBytes) (bytes : Bytes) : Outcome LimitError SecretBytes :=
  match extendedLength storage.bytes.length bytes.length storage.capacity with
  | .ok _ =>
      if h : storage.bytes.length + bytes.length ≤ storage.capacity then
        .ok (append storage.capacity storage.bytes bytes h)
      else .panic
  | .err e => .err e
  | .panic => .panic
  | .dropped => .dropped

/-- Bytes that fit are appended. -/
theorem extend_eq (storage : SecretBytes) {bytes : Bytes} (husize : storage.capacity ≤ usizeMax)
    (h : storage.bytes.length + bytes.length ≤ storage.capacity) :
    storage.extend bytes = .ok ⟨storage.capacity, storage.bytes ++ bytes, fits_append h⟩ := by
  have hlength : extendedLength storage.bytes.length bytes.length storage.capacity =
      .ok (storage.bytes.length + bytes.length) := Outcome.checkedSum_le husize h
  rw [extend, hlength, dif_pos h]
  rfl

/-- The copy stays inside the allocation. -/
theorem extend_returns (storage : SecretBytes) (bytes : Bytes) :
    (storage.extend bytes).Returns := by
  unfold extend extendedLength
  cases hadd : checkedAdd usizeMax storage.bytes.length bytes.length with
  | none => exact Outcome.returns_err _
  | some length =>
      obtain ⟨-, rfl⟩ := checkedAdd_eq_some.mp hadd
      rw [Outcome.okOr_some, Outcome.ok_bind]
      by_cases hfits : storage.bytes.length + bytes.length ≤ storage.capacity
      · rw [if_neg (Nat.not_lt.mpr hfits)]
        simp only [dif_pos hfits]
        exact Outcome.returns_ok _
      · rw [if_pos (Nat.lt_of_not_le hfits)]
        exact Outcome.returns_err _

end SecretBytes

end Assuan
