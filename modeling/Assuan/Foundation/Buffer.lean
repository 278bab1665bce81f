import Assuan.Foundation.Outcome

/-!
# Fixed byte arrays

`Buffer n` is the array `[u8; n]` (or a boxed slice that keeps its length).
Its length is part of the type, so no operation can change it; every access
that the source would check at run time returns an `Option`.

Most buffers of the source are zero beyond the bytes in use. `Buffer.pad`
builds exactly these, and the lemmas below keep buffers in that form.
-/

namespace Assuan

structure Buffer (n : ℕ) : Type where
  bytes : Bytes
  size : bytes.length = n
deriving DecidableEq

namespace Buffer

variable {n : ℕ}

@[ext] theorem ext {a b : Buffer n} (h : a.bytes = b.bytes) : a = b := by
  cases a
  cases b
  simp_all

/-- `[0; n]`, also the result of `zeroize`. -/
def zero (n : ℕ) : Buffer n := ⟨List.replicate n 0, List.length_replicate⟩

def get (b : Buffer n) (i : ℕ) : Option UInt8 := b.bytes[i]?

/-- `buffer[i] = byte`. -/
def set (b : Buffer n) (i : ℕ) (byte : UInt8) : Option (Buffer n) :=
  if i < n then some ⟨b.bytes.set i byte, by simp [b.size]⟩ else none

/-- `buffer[i..j]`. -/
def slice (b : Buffer n) (i j : ℕ) : Option Bytes :=
  if i ≤ j ∧ j ≤ n then some ((b.bytes.take j).drop i) else none

/-- `buffer[i..i + src.len()].copy_from_slice(src)`. -/
def copyAt (b : Buffer n) (i : ℕ) (src : Bytes) : Option (Buffer n) :=
  if h : i + src.length ≤ n then
    some ⟨b.bytes.take i ++ src ++ b.bytes.drop (i + src.length), by
      simp only [List.length_append, List.length_take, List.length_drop, b.size]
      omega⟩
  else none

/-- `buffer.copy_within(i..j, 0)`. -/
def copyWithin (b : Buffer n) (i j : ℕ) : Option (Buffer n) :=
  (b.slice i j).bind (b.copyAt 0)

/-- `buffer[i..].zeroize()`. -/
def zeroizeFrom (b : Buffer n) (i : ℕ) : Option (Buffer n) :=
  if h : i ≤ n then
    some ⟨b.bytes.take i ++ List.replicate (n - i) 0, by
      simp only [List.length_append, List.length_take, List.length_replicate, b.size]
      omega⟩
  else none

/-! ## Writes into an arbitrary buffer -/

theorem length_take_le {b : Buffer n} {i : ℕ} (h : i ≤ n) : (b.bytes.take i).length = i := by
  rw [List.length_take, b.size]
  exact Nat.min_eq_left h

/-- A copy extends the written prefix and leaves everything beyond it. -/
theorem copyAt_spec (b : Buffer n) (i : ℕ) (src : Bytes) (h : i + src.length ≤ n) :
    ∃ b', b.copyAt i src = some b' ∧
      b'.bytes.take (i + src.length) = b.bytes.take i ++ src ∧
      b'.bytes.drop (i + src.length) = b.bytes.drop (i + src.length) := by
  have hpre : (b.bytes.take i ++ src).length = i + src.length := by
    rw [List.length_append, length_take_le (by omega)]
  refine ⟨_, by rw [copyAt, dif_pos h], ?_, ?_⟩
  · exact List.take_left' hpre
  · exact List.drop_left' hpre

theorem set_spec (b : Buffer n) (i : ℕ) (byte : UInt8) (h : i < n) :
    ∃ b', b.set i byte = some b' ∧
      b'.bytes.take (i + 1) = b.bytes.take i ++ [byte] ∧
      b'.bytes.drop (i + 1) = b.bytes.drop (i + 1) := by
  have hi : i < b.bytes.length := by rw [b.size]; exact h
  refine ⟨_, by rw [set, if_pos h], ?_, ?_⟩
  · show (b.bytes.set i byte).take (i + 1) = _
    rw [List.take_succ_eq_append_getElem (by simpa using hi), List.getElem_set_self,
      List.take_set_of_le (Nat.le_refl _)]
  · show (b.bytes.set i byte).drop (i + 1) = _
    rw [List.drop_set, if_pos (Nat.lt_succ_self _)]

/-! ## Buffers that are zero beyond their contents -/

/-- `bs` followed by zeros. -/
def pad (n : ℕ) (bs : Bytes) : Buffer n :=
  ⟨(bs ++ List.replicate n 0).take n, by simp⟩

theorem pad_bytes {bs : Bytes} (h : bs.length ≤ n) :
    (pad n bs).bytes = bs ++ List.replicate (n - bs.length) 0 := by
  simp only [pad, List.take_append]
  rw [List.take_of_length_le h, List.take_replicate]
  congr 2
  omega

@[simp] theorem pad_nil : pad n [] = zero n := by
  ext1
  simp [pad, zero]

@[simp] theorem pad_take {bs : Bytes} (h : bs.length ≤ n) :
    (pad n bs).bytes.take bs.length = bs := by
  rw [pad_bytes h]
  simp

theorem set_pad {bs : Bytes} {byte : UInt8} (h : bs.length < n) :
    (pad n bs).set bs.length byte = some (pad n (bs ++ [byte])) := by
  have hl : (bs ++ [byte]).length ≤ n := by
    simp only [List.length_append, List.length_singleton]
    omega
  have hrep : List.replicate (n - bs.length) (0 : UInt8)
      = 0 :: List.replicate (n - (bs ++ [byte]).length) 0 := by
    rw [← List.replicate_succ]
    congr 1
    simp only [List.length_append, List.length_singleton]
    omega
  rw [set, if_pos h]
  congr 1
  ext1
  rw [pad_bytes hl]
  show (pad n bs).bytes.set bs.length byte = _
  rw [pad_bytes (Nat.le_of_lt h), hrep, List.set_append_right _ _ (Nat.le_refl _)]
  simp

theorem get_pad {bs : Bytes} {i : ℕ} (hi : i < bs.length) (h : bs.length ≤ n) :
    (pad n bs).get i = some (bs[i]) := by
  rw [get, pad_bytes h, List.getElem?_append_left hi, List.getElem?_eq_getElem hi]

theorem slice_pad {bs : Bytes} {i j : ℕ} (hij : i ≤ j) (hj : j ≤ bs.length)
    (h : bs.length ≤ n) : (pad n bs).slice i j = some ((bs.take j).drop i) := by
  rw [slice, if_pos ⟨hij, by omega⟩, pad_bytes h, List.take_append_of_le_length hj]

theorem copyAt_pad {bs src : Bytes} (h : bs.length + src.length ≤ n) :
    (pad n bs).copyAt bs.length src = some (pad n (bs ++ src)) := by
  have hl : (bs ++ src).length ≤ n := by simpa using h
  rw [copyAt, dif_pos h]
  congr 1
  ext1
  rw [pad_bytes hl]
  show (pad n bs).bytes.take bs.length ++ src ++ (pad n bs).bytes.drop _ = _
  rw [pad_take (by omega), pad_bytes (by omega), List.drop_append]
  simp only [List.length_append, List.drop_replicate, Nat.add_sub_cancel_left]
  rw [List.drop_of_length_le (by omega), List.nil_append, Nat.sub_sub]

theorem copyAt_zero {src : Bytes} (h : src.length ≤ n) :
    (zero n).copyAt 0 src = some (pad n src) := by
  have hpad : (pad n []).copyAt ([] : Bytes).length src = some (pad n ([] ++ src)) :=
    copyAt_pad (by simpa using h)
  simpa using hpad

/-- Writing a prefix of an arbitrary buffer leaves the bytes beyond it. -/
theorem copyAt_start (b : Buffer n) (src : Bytes) (h : src.length ≤ n) :
    ∃ b' : Buffer n, b.copyAt 0 src = some b' ∧
      b'.bytes = src ++ b.bytes.drop src.length := by
  refine ⟨_, by rw [copyAt, dif_pos (by omega)], ?_⟩
  simp

/-- Overwriting the front of the contents leaves what is behind it. -/
theorem overwrite_pad {old src rest : Bytes} (hsame : src.length = old.length)
    (h : (old ++ rest).length ≤ n) :
    (pad n (old ++ rest)).copyAt 0 src = some (pad n (src ++ rest)) := by
  have h' : (src ++ rest).length ≤ n := by rwa [List.length_append, hsame, ← List.length_append]
  have hsrc : src.length ≤ n := by
    rw [List.length_append] at h'
    omega
  obtain ⟨storage, hcopy, hbytes⟩ := copyAt_start (pad n (old ++ rest)) src hsrc
  rw [hcopy]
  congr 1
  ext1
  rw [hbytes, pad_bytes h, pad_bytes h', hsame, List.append_assoc, List.drop_left,
    List.append_assoc, List.length_append, List.length_append, hsame]

/-- Shifting the unread tail of a padded buffer to its front and wiping what
is left behind gives the padded tail. -/
theorem shift_pad {bs : Bytes} {k : ℕ} (hk : k ≤ bs.length) (h : bs.length ≤ n) :
    ((pad n bs).copyWithin k bs.length).bind (zeroizeFrom · (bs.length - k))
      = some (pad n (bs.drop k)) := by
  have hlen : (bs.drop k).length = bs.length - k := List.length_drop
  rw [copyWithin, slice_pad hk (Nat.le_refl _) h, List.take_length, Option.bind_some]
  obtain ⟨b', hb', hbytes⟩ := copyAt_start (pad n bs) (bs.drop k) (by omega)
  rw [hb', Option.bind_some, zeroizeFrom, dif_pos (by omega)]
  congr 1
  ext1
  rw [pad_bytes (by omega)]
  show b'.bytes.take (bs.length - k) ++ _ = _
  rw [hbytes, ← hlen, List.take_left]

end Buffer

end Assuan
