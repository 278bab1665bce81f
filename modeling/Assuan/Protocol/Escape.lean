import Assuan.Protocol.Encode

/-!
# Percent decoding (`assuan-protocol/src/escape.rs`)

`decode_data_in_place` validates the whole slice, then rewrites it while it
reads it. The second pass is modelled on the slice itself, with its read and
write cursors; `decodeRef` is the left-to-right decoding it must agree with.
-/

namespace Assuan

def hex (b : UInt8) : Option UInt8 :=
  if 48 ≤ b ∧ b ≤ 57 then some (b - 48)
  else if 97 ≤ b ∧ b ≤ 102 then some (b - 97 + 10)
  else if 65 ≤ b ∧ b ≤ 70 then some (b - 65 + 10)
  else none

/-- The validation pass, with the cursor of the source. The first argument bounds
the iterations; the loop ends before it is spent because `read` grows in every
one. -/
def validateLoop : ℕ → Bytes → (read : ℕ) → Outcome ProtocolError Unit
  | 0, _, _ => .panic
  | fuel + 1, bytes, read =>
      if read < bytes.length then do
        let b ← Outcome.index bytes[read]?
        if b = percent then
          -- `||` evaluates its right side only when the left one is false
          if bytes.length - read < 3 then .err .invalidEscape
          else if (hex (← Outcome.index bytes[read + 1]?)).isNone then .err .invalidEscape
          else if (hex (← Outcome.index bytes[read + 2]?)).isNone then .err .invalidEscape
          else validateLoop fuel bytes (read + 3)
        else validateLoop fuel bytes (read + 1)
      else .ok ()

/-- The validation pass, walking the unread suffix. -/
def checkEscapes : Bytes → Outcome ProtocolError Unit
  | [] => .ok ()
  | b :: rest =>
      if b = percent then
        match rest with
        | high :: low :: rest =>
            if (hex high).isNone || (hex low).isNone then .err .invalidEscape
            else checkEscapes rest
        | _ => .err .invalidEscape
      else checkEscapes rest

/-- `bytes[i] = byte` on a slice. -/
def setAt (bytes : Bytes) (i : ℕ) (byte : UInt8) : Option Bytes :=
  if i < bytes.length then some (bytes.set i byte) else none

/-- `digit.unwrap_or(..)`; `missing` is what the default branch does, `.ok 0` in
the source. -/
def unwrapOr (missing : Outcome ProtocolError UInt8) : Option UInt8 → Outcome ProtocolError UInt8
  | some digit => .ok digit
  | none => missing

/-- The decoding pass, with the same bound on its iterations. -/
def decodeLoop (missing : Outcome ProtocolError UInt8) :
    ℕ → Bytes → (read written : ℕ) → Outcome ProtocolError (ℕ × Bytes)
  | 0, _, _, _ => .panic
  | fuel + 1, bytes, read, written =>
      if read < bytes.length then do
        let b ← Outcome.index bytes[read]?
        if b = percent then
          let high ← unwrapOr missing (hex (← Outcome.index bytes[read + 1]?))
          let low ← unwrapOr missing (hex (← Outcome.index bytes[read + 2]?))
          let bytes ← Outcome.index (setAt bytes written (high * 16 + low))
          decodeLoop missing fuel bytes (read + 3) (written + 1)
        else
          let bytes ← Outcome.index (setAt bytes written b)
          decodeLoop missing fuel bytes (read + 1) (written + 1)
      else .ok (written, bytes)

/-- Both passes: the decoded length and the slice afterwards. -/
def decodeDataOr (missing : Outcome ProtocolError UInt8) (bytes : Bytes) :
    Outcome ProtocolError ℕ × Bytes :=
  match validateLoop (bytes.length + 1) bytes 0 with
  | .ok () =>
      match decodeLoop missing (bytes.length + 1) bytes 0 0 with
      | .ok (written, bytes) => (.ok written, bytes)
      | _ => (.panic, bytes)
  | .err e => (.err e, bytes)
  | .panic => (.panic, bytes)
  | .dropped => (.dropped, bytes)

/-- The decoded length and the slice afterwards. -/
def decodeDataInPlace (bytes : Bytes) : Outcome ProtocolError ℕ × Bytes :=
  decodeDataOr (.ok 0) bytes

/-! ## The reference decoder -/

/-- Reads one byte other than `%`, or a `%` and two hexadecimal digits. -/
def decodeRef : Bytes → Option Bytes
  | [] => some []
  | b :: rest =>
      if b = percent then
        match rest with
        | high :: low :: rest =>
            match hex high, hex low with
            | some h, some l => (decodeRef rest).map ((h * 16 + l) :: ·)
            | _, _ => none
        | _ => none
      else (decodeRef rest).map (b :: ·)

theorem checkEscapes_eq (bytes : Bytes) :
    checkEscapes bytes = if (decodeRef bytes).isSome then .ok () else .err .invalidEscape := by
  fun_induction decodeRef bytes with
  | case1 => rfl
  | case2 high low rest h l hl hh ih => simp [checkEscapes, hh, hl, ih]
  | case3 high low rest hno =>
      cases hh : hex high with
      | none => simp [checkEscapes, hh]
      | some h =>
          cases hl : hex low with
          | none => simp [checkEscapes, hl]
          | some l => exact (hno h l hh hl).elim
  | case4 rest hno =>
      rw [checkEscapes.eq_def]
      simp
  | case5 b rest hb ih =>
      rw [checkEscapes.eq_def]
      simp [hb, ih]

theorem decodeRef_length {bytes decoded : Bytes} (h : decodeRef bytes = some decoded) :
    decoded.length ≤ bytes.length := by
  fun_induction decodeRef bytes generalizing decoded with
  | case1 => rw [← Option.some.inj h]
  | case2 high low rest h' l hl hh ih =>
      obtain ⟨tail, htail, rfl⟩ := Option.map_eq_some_iff.mp h
      have := ih htail
      simp only [List.length_cons]
      omega
  | case3 => exact absurd h (by simp)
  | case4 => exact absurd h (by simp)
  | case5 b rest hb ih =>
      obtain ⟨tail, htail, rfl⟩ := Option.map_eq_some_iff.mp h
      exact Nat.succ_le_succ (ih htail)

/-- The bytes at the cursor, read off the unread suffix. -/
theorem drop_three {bytes rest : Bytes} {read : ℕ} {b high low : UInt8}
    (h : bytes.drop read = b :: high :: low :: rest) :
    read + 3 ≤ bytes.length ∧ bytes[read + 1]? = some high ∧ bytes[read + 2]? = some low ∧
      bytes.drop (read + 3) = rest := by
  refine ⟨?_, ?_, ?_, ?_⟩
  · have hlen := congrArg List.length h
    simp only [List.length_drop, List.length_cons] at hlen
    omega
  · rw [← List.getElem?_drop, h]
    rfl
  · rw [← List.getElem?_drop, h]
    rfl
  · simpa [List.drop_drop] using congrArg (List.drop 3) h

/-- The cursor of the validation pass walks the suffix, inside the slice. -/
theorem validateLoop_eq {fuel read : ℕ} {bytes : Bytes}
    (hfuel : (bytes.drop read).length < fuel) :
    validateLoop fuel bytes read = checkEscapes (bytes.drop read) := by
  induction fuel generalizing read with
  | zero => omega
  | succ fuel ih =>
      rw [validateLoop]
      rw [List.length_drop] at hfuel
      rcases Nat.lt_or_ge read bytes.length with hlt | hge
      · have hdrop : bytes.drop read = bytes[read] :: bytes.drop (read + 1) :=
          List.drop_eq_getElem_cons hlt
        rw [if_pos hlt, List.getElem?_eq_getElem hlt, Outcome.index_some, Outcome.ok_bind, hdrop,
          checkEscapes.eq_def]
        simp only
        by_cases hp : bytes[read] = percent
        · rw [if_pos hp, if_pos hp]
          have hlen := congrArg List.length hdrop
          rw [List.length_drop] at hlen
          -- too short for two digits, or two bytes to look at
          rcases hrest : bytes.drop (read + 1) with _ | ⟨high, _ | ⟨low, rest⟩⟩
          · rw [if_pos (by simp only [hlen, hrest, List.length_cons, List.length_nil]; decide)]
          · rw [if_pos (by simp only [hlen, hrest, List.length_cons, List.length_nil]; decide)]
          · obtain ⟨hlong, h1, h2, h3⟩ := drop_three (hdrop.trans (congrArg _ hrest))
            rw [if_neg (by omega), h1, Outcome.index_some, Outcome.ok_bind]
            cases hh : hex high with
            | none => simp [hh]
            | some h =>
                rw [h2, Outcome.index_some, Outcome.ok_bind]
                cases hl : hex low with
                | none => simp [hl]
                | some l =>
                    have hnext := @ih (read + 3) (by rw [List.length_drop]; omega)
                    simpa [hh, hl, h3] using hnext
        · rw [if_neg hp, if_neg hp]
          exact ih (by rw [List.length_drop]; omega)
      · rw [if_neg (by omega), List.drop_of_length_le hge]
        rfl

/-- Storing one decoded byte at the write cursor. -/
theorem take_set_append {bytes decoded : Bytes} {written : ℕ} (b : UInt8)
    (h : written < bytes.length) :
    (bytes.set written b).take (written + 1) ++ decoded ++
        (bytes.set written b).drop (written + 1 + decoded.length) =
      bytes.take written ++ b :: decoded ++ bytes.drop (written + (b :: decoded).length) := by
  rw [List.take_succ_eq_append_getElem (by simpa using h), List.getElem_set_self,
    List.take_set_of_le (Nat.le_refl _), List.drop_set, if_pos (by omega), List.length_cons,
    Nat.add_assoc, Nat.add_comm 1]
  simp

/-- From a suffix that decodes, the loop writes exactly the decoded bytes at the
write cursor and leaves everything after them; its default branch is free. -/
theorem decodeLoop_spec (missing : Outcome ProtocolError UInt8) {fuel read written : ℕ}
    {bytes decoded : Bytes}
    (hfuel : (bytes.drop read).length < fuel) (hw : written ≤ read)
    (hread : read ≤ bytes.length) (hdec : decodeRef (bytes.drop read) = some decoded) :
    decodeLoop missing fuel bytes read written = .ok (written + decoded.length,
      bytes.take written ++ decoded ++ bytes.drop (written + decoded.length)) := by
  induction fuel generalizing bytes read written decoded with
  | zero => omega
  | succ fuel ih =>
      rw [decodeLoop]
      rcases Nat.lt_or_ge read bytes.length with hlt | hge
      · have hdrop : bytes.drop read = bytes[read] :: bytes.drop (read + 1) :=
          List.drop_eq_getElem_cons hlt
        -- the write cursor never passes the read cursor
        have hstore : ∀ b, setAt bytes written b = some (bytes.set written b) :=
          fun b => if_pos (by omega)
        have hkeep : ∀ b k, (bytes.set written b).drop (read + (k + 1)) = bytes.drop (read + (k + 1)) :=
          fun b k => by rw [List.drop_set, if_pos (by omega)]
        rw [if_pos hlt, List.getElem?_eq_getElem hlt, Outcome.index_some, Outcome.ok_bind]
        rw [hdrop, decodeRef.eq_def] at hdec
        simp only at hdec
        by_cases hp : bytes[read] = percent
        · rw [if_pos hp] at hdec ⊢
          split at hdec
          · next high low rest hrest =>
              split at hdec
              · next h l hh hl =>
                  obtain ⟨tail, htail, rfl⟩ := Option.map_eq_some_iff.mp hdec
                  obtain ⟨hlen, h1, h2, h3⟩ := drop_three (hdrop.trans (congrArg _ hrest))
                  simp only [h1, h2, hh, hl, hstore, Outcome.index_some, Outcome.ok_bind,
                    unwrapOr]
                  rw [ih (by rw [hkeep, List.length_drop] at *; omega) (by omega)
                    (by simpa using hlen) (by rw [hkeep, h3]; exact htail),
                    take_set_append _ (by omega)]
                  simp only [List.length_cons]
                  congr 2
                  omega
              · exact absurd hdec (by simp)
          · exact absurd hdec (by simp)
        · rw [if_neg hp] at hdec ⊢
          obtain ⟨tail, htail, rfl⟩ := Option.map_eq_some_iff.mp hdec
          simp only [hstore, Outcome.index_some, Outcome.ok_bind]
          rw [ih (by rw [List.length_drop] at *; simp; omega) (by omega) (by simpa using hlt)
            (by rw [hkeep _ 0]; exact htail), take_set_append _ (by omega)]
          simp only [List.length_cons]
          congr 2
          omega
      · -- the rest of the slice stays as it was
        have hnil : bytes.drop read = [] := List.drop_of_length_le hge
        rw [hnil] at hdec
        rw [if_neg (by omega), ← Option.some.inj hdec]
        simp

/-- The decoder agrees with the reference, whatever its default branches do: a
defined decoding replaces a prefix of the slice, an undefined one is an error and
changes nothing. -/
theorem decodeDataOr_eq (missing : Outcome ProtocolError UInt8) (bytes : Bytes) :
    decodeDataOr missing bytes = match decodeRef bytes with
      | some decoded => (.ok decoded.length, decoded ++ bytes.drop decoded.length)
      | none => (.err .invalidEscape, bytes) := by
  unfold decodeDataOr
  rw [validateLoop_eq (by simp), List.drop_zero, checkEscapes_eq]
  cases h : decodeRef bytes with
  | none => rfl
  | some decoded =>
      have hloop := @decodeLoop_spec missing (bytes.length + 1) 0 0 bytes decoded
        (by simp) (Nat.le_refl _) (Nat.zero_le _) (by simpa using h)
      simp [hloop]

theorem decodeDataInPlace_eq (bytes : Bytes) :
    decodeDataInPlace bytes = match decodeRef bytes with
      | some decoded => (.ok decoded.length, decoded ++ bytes.drop decoded.length)
      | none => (.err .invalidEscape, bytes) :=
  decodeDataOr_eq (.ok 0) bytes

/-- **In-place decoding is the reference decoding.** The slice decodes exactly when
the reference does, its prefix is then the decoding and the bytes after it are the
input's; otherwise it is left as it was. No index is out of range, and no default
branch is taken: what it would do, a panic included, makes no difference. -/
theorem decodeDataInPlace_exact (s : Bytes) :
    (∀ n, (decodeDataInPlace s).1 = .ok n ↔ ∃ decoded, decodeRef s = some decoded ∧
      n = decoded.length) ∧
    (∀ decoded, decodeRef s = some decoded →
      decoded.length ≤ s.length ∧
      (decodeDataInPlace s).2.length = s.length ∧
      (decodeDataInPlace s).2.take decoded.length = decoded ∧
      (decodeDataInPlace s).2.drop decoded.length = s.drop decoded.length) ∧
    (decodeRef s = none → decodeDataInPlace s = (.err .invalidEscape, s)) ∧
    (decodeDataInPlace s).1 ≠ .panic ∧
    (∀ missing, decodeDataOr missing s = decodeDataInPlace s) := by
  have hany : ∀ missing, decodeDataOr missing s = decodeDataInPlace s := fun missing => by
    rw [decodeDataOr_eq, decodeDataInPlace_eq]
  rw [decodeDataInPlace_eq] at hany ⊢
  cases h : decodeRef s with
  | none => simp_all
  | some decoded =>
      have hlen := decodeRef_length h
      refine ⟨?_, ?_, by simp, by simp, by simpa [h] using hany⟩
      · intro n
        simp [eq_comm]
      · rintro _ ⟨⟩
        refine ⟨hlen, ?_, List.take_left' rfl, List.drop_left' rfl⟩
        simp only [List.length_append, List.length_drop]
        omega

example : decodeDataInPlace (asBytes "a%2541") = (.ok 4, asBytes "a%4141") := by
  decide

/-! ## Escaping and decoding -/

theorem hex_isSome (b : UInt8) : (hex b).isSome = isAsciiHexdigit b := by
  unfold hex isAsciiHexdigit isAsciiDigit
  by_cases h1 : 48 ≤ b ∧ b ≤ 57
  · simp [h1]
  · by_cases h2 : 97 ≤ b ∧ b ≤ 102
    · simp [h1, h2]
    · by_cases h3 : 65 ≤ b ∧ b ≤ 70
      · simp [h1, h2, h3]
      · simp [h1, h2, h3]

/-- The encoder's escape check is the decoder's. -/
theorem validateEncodedData_eq (bytes : Bytes) :
    validateEncodedData bytes = checkEscapes bytes := by
  fun_induction validateEncodedData bytes with
  | case1 => rfl
  | case2 high low rest h ih =>
      rw [Bool.and_eq_true, ← hex_isSome, ← hex_isSome] at h
      rw [checkEscapes.eq_def]
      simp [Option.isNone_eq_false_iff.mpr h.1, Option.isNone_eq_false_iff.mpr h.2, ih]
  | case3 high low rest h =>
      rw [← hex_isSome, ← hex_isSome] at h
      rw [checkEscapes.eq_def]
      cases hh : hex high <;> cases hl : hex low <;> simp_all
  | case4 rest hno =>
      rw [checkEscapes.eq_def]
      simp
  | case5 b rest hb ih =>
      rw [checkEscapes.eq_def]
      simp [hb, ih]

/-- Decoding one escaped byte. -/
theorem decodeRef_escapeByte (b : UInt8) (rest : Bytes) :
    decodeRef (escapeByte b ++ rest) = (decodeRef rest).map (b :: ·) := by
  unfold escapeByte escapeOf
  split
  · next h => rw [h]; rfl
  · split
    · next h => rw [h]; rfl
    · split
      · next h => rw [h]; rfl
      · split
        · next h => rw [h]; rfl
        · next hp _ _ _ =>
            rw [decodeRef.eq_def]
            simp [hp]

theorem decodeRef_escapeBytes (payload : Bytes) :
    decodeRef (escapeBytes payload) = some payload := by
  induction payload with
  | nil => rfl
  | cons b rest ih =>
      rw [escapeBytes, List.flatMap_cons, decodeRef_escapeByte]
      rw [escapeBytes] at ih
      rw [ih]
      rfl

theorem escapeByte_clean (b : UInt8) : isCleanLine (escapeByte b) = true := by
  unfold escapeByte escapeOf
  split
  · rfl
  · split
    · rfl
    · split
      · rfl
      · split
        · rfl
        · simp_all [isForbidden]

theorem escapeBytes_clean (payload : Bytes) : isCleanLine (escapeBytes payload) = true := by
  induction payload with
  | nil => rfl
  | cons b rest ih =>
      rw [escapeBytes, List.flatMap_cons, isCleanLine_append, escapeByte_clean]
      exact ih

end Assuan
