import Assuan.Protocol.Message

/-!
# Encoders (`assuan-protocol/src/encode.rs`)

Each encoder writes into a caller-owned array of 1000 bytes and returns the
length of the written line together with the array, also when it fails: "the
output is unchanged on error" is then a statement about the second component.
-/

namespace Assuan

/-- `MAX_LINE_BYTES`. -/
def maxLineBytes : ℕ := 1000

abbrev LineArray : Type := Buffer maxLineBytes

/-! ## `write_parts` -/

/-- The first loop of `write_parts`: nothing is written before it succeeds. -/
def measureParts : List Bytes → ℕ → Outcome ProtocolError ℕ
  | [], total => .ok total
  | part :: parts, total => do
      validateLine part
      let total ← Outcome.okOr .lineTooLong (checkedAdd usizeMax total part.length)
      if total > maxLineBytes then .err .lineTooLong else measureParts parts total

/-- The second loop: `none` is an out-of-range copy. -/
def copyParts : List Bytes → ℕ → LineArray → Option (ℕ × LineArray)
  | [], position, output => some (position, output)
  | part :: parts, position, output =>
      (output.copyAt position part).bind fun output =>
        copyParts parts (position + part.length) output

def writeParts (parts : List Bytes) (output : LineArray) :
    Outcome ProtocolError ℕ × LineArray :=
  match measureParts parts 1 with
  | .ok total =>
      match (copyParts parts 0 output).bind fun (position, output) => output.set position lf with
      | some output => (.ok total, output)
      | none => (.panic, output)
  | .err e => (.err e, output)
  | .panic => (.panic, output)
  | .dropped => (.dropped, output)

def writeOptional (tag text : Bytes) (output : LineArray) :
    Outcome ProtocolError ℕ × LineArray :=
  if text = [] then writeParts [tag] output else writeParts [tag, [space], text] output

def writeKeyword (tag : Bytes) (keyword : String) (args : Bytes) (output : LineArray) :
    Outcome ProtocolError ℕ × LineArray :=
  match (do
    validateToken (asBytes keyword)
    if (← Outcome.index (keywordStart (asBytes keyword))) then .ok ()
    else .err .invalidToken : Outcome ProtocolError Unit) with
  | .ok () =>
      if args = [] then writeParts [tag, asBytes keyword] output
      else writeParts [tag, asBytes keyword, [space], args] output
  | .err e => (.err e, output)
  | .panic => (.panic, output)
  | .dropped => (.dropped, output)

/-! ## Percent escapes -/

/-- `u8::is_ascii_hexdigit`. -/
def isAsciiHexdigit (b : UInt8) : Bool :=
  isAsciiDigit b || (65 ≤ b ∧ b ≤ 70) || (97 ≤ b ∧ b ≤ 102)

/-- `validate_encoded_data`, walking the unread suffix. -/
def validateEncodedData : Bytes → Outcome ProtocolError Unit
  | [] => .ok ()
  | b :: rest =>
      if b = percent then
        match rest with
        | high :: low :: rest =>
            if isAsciiHexdigit high && isAsciiHexdigit low then validateEncodedData rest
            else .err .invalidEscape
        | _ => .err .invalidEscape
      else validateEncodedData rest

/-- The escape table of `encode_data_chunk`. -/
def escapeOf (b : UInt8) : Option Bytes :=
  if b = percent then some (asBytes "%25")
  else if b = cr then some (asBytes "%0D")
  else if b = lf then some (asBytes "%0A")
  else if b = 0 then some (asBytes "%00")
  else none

/-! ## The encoders -/

def encodeCommand (command : Command) (output : LineArray) :
    Outcome ProtocolError ℕ × LineArray :=
  if command.args = [] then writeParts [asBytes command.name] output
  else writeParts [asBytes command.name, [space], command.args] output

def encodeResponse (line : ServerLine) (output : LineArray) :
    Outcome ProtocolError ℕ × LineArray :=
  match line with
  | .ok text => writeOptional (asBytes "OK") text output
  | .err code text =>
      match (digitLoop code.toNat 10 (Buffer.zero 10) :
          Outcome ProtocolError (ℕ × Buffer 10)) with
      | .ok (start, digits) =>
          if text = [] then writeParts [asBytes "ERR ", digits.bytes.drop start] output
          else writeParts [asBytes "ERR ", digits.bytes.drop start, [space], text] output
      | _ => (.panic, output)
  | .data data =>
      match validateEncodedData data with
      | .ok () => writeParts [asBytes "D ", data] output
      | .err e => (.err e, output)
      | .panic => (.panic, output)
      | .dropped => (.dropped, output)
  | .status keyword args => writeKeyword (asBytes "S ") keyword args output
  | .inquire keyword args => writeKeyword (asBytes "INQUIRE ") keyword args output
  | .end_ => writeParts [asBytes "END"] output
  | .comment text => writeParts [asBytes "#", text] output
  | .empty => writeParts [] output

/-- The loop of `encode_data_chunk` over the bytes not yet consumed. -/
def chunkLoop : Bytes → LineArray → (written consumed : ℕ) → Option (ℕ × ℕ × LineArray)
  | [], output, written, consumed => some (consumed, written, output)
  | byte :: rest, output, written, consumed =>
      let cost := if (escapeOf byte).isSome then 3 else 1
      if written + cost ≥ maxLineBytes then some (consumed, written, output)
      else
        (match escapeOf byte with
          | some escape => output.copyAt written escape
          | none => output.set written byte).bind fun output =>
            chunkLoop rest output (written + cost) (consumed + 1)

/-- `encode_data_chunk`: the bytes consumed and the length of the line. -/
def encodeDataChunk (input : Bytes) (output : LineArray) :
    Outcome ProtocolError (ℕ × ℕ) × LineArray :=
  match (do
    let output ← output.copyAt 0 (asBytes "D ")
    let (consumed, written, output) ← chunkLoop input output 2 0
    let output ← output.set written lf
    some (consumed, written, output)) with
  | some (consumed, written, output) => (.ok (consumed, written + 1), output)
  | none => (.panic, output)

/-! ## What `write_parts` does -/

theorem measureParts_eq_ok {parts : List Bytes} {start total : ℕ} (hs : start ≤ maxLineBytes) :
    measureParts parts start = .ok total ↔
      (∀ part ∈ parts, isCleanLine part = true) ∧
        start + parts.flatten.length ≤ maxLineBytes ∧ total = start + parts.flatten.length := by
  induction parts generalizing start with
  | nil =>
      simp only [measureParts, Outcome.ok.injEq, List.not_mem_nil, false_implies, implies_true,
        List.flatten_nil, List.length_nil, Nat.add_zero, hs, true_and]
      exact eq_comm
  | cons part parts ih =>
      rw [measureParts]
      by_cases hc : isCleanLine part = true
      · by_cases hle : start + part.length ≤ maxLineBytes
        · rw [validateLine_eq_ok.mpr hc, Outcome.ok_bind,
            Outcome.checkedSum_le (by decide : maxLineBytes ≤ usizeMax) hle, ih hle]
          simp [hc, Nat.add_assoc]
        · rw [validateLine_eq_ok.mpr hc, Outcome.ok_bind,
            or_self_iff.mp (Outcome.checkedSum_gt (Nat.lt_of_not_le hle))]
          simp only [reduceCtorEq, List.flatten_cons, List.length_append, false_iff]
          rintro ⟨-, h, -⟩
          omega
      · have hv : validateLine part = .err .invalidLine := by
          rw [validateLine, if_neg hc]
        rw [hv]
        simp [hc]

theorem measureParts_total (parts : List Bytes) (start : ℕ) :
    (∃ total, measureParts parts start = .ok total) ∨
      ∃ e, measureParts parts start = .err e := by
  induction parts generalizing start with
  | nil => exact Or.inl ⟨start, rfl⟩
  | cons part parts ih =>
      rw [measureParts, validateLine]
      split
      · cases h : checkedAdd usizeMax start part.length with
        | none => exact Or.inr ⟨_, rfl⟩
        | some total =>
            show (∃ t, (if total > maxLineBytes then _ else _) = _) ∨ _
            by_cases hgt : total > maxLineBytes
            · exact Or.inr ⟨.lineTooLong, by simp [hgt]⟩
            · simpa [hgt] using ih total
      · exact Or.inr ⟨_, rfl⟩

/-- Clean parts can only be too long. -/
theorem measureParts_err {parts : List Bytes} {start : ℕ} {e : ProtocolError}
    (hclean : ∀ part ∈ parts, isCleanLine part = true) (h : measureParts parts start = .err e) :
    e = .lineTooLong := by
  induction parts generalizing start with
  | nil => exact absurd h (by simp [measureParts])
  | cons part parts ih =>
      rw [measureParts, validateLine_eq_ok.mpr (hclean part List.mem_cons_self),
        Outcome.ok_bind] at h
      cases hsum : checkedAdd usizeMax start part.length with
      | none =>
          rw [hsum, Outcome.okOr_none, Outcome.err_bind] at h
          exact (Outcome.err.inj h).symm
      | some total =>
          rw [hsum, Outcome.okOr_some, Outcome.ok_bind] at h
          split at h
          · exact (Outcome.err.inj h).symm
          · exact ih (fun p hp => hclean p (List.mem_cons_of_mem _ hp)) h

theorem copyParts_spec {parts : List Bytes} {position : ℕ} {output : LineArray}
    (h : position + parts.flatten.length ≤ maxLineBytes) :
    ∃ out, copyParts parts position output = some (position + parts.flatten.length, out) ∧
      out.bytes.take (position + parts.flatten.length) =
        output.bytes.take position ++ parts.flatten ∧
      out.bytes.drop (position + parts.flatten.length) =
        output.bytes.drop (position + parts.flatten.length) := by
  induction parts generalizing position output with
  | nil => exact ⟨output, by simp [copyParts]⟩
  | cons part parts ih =>
      rw [List.flatten_cons, List.length_append, ← Nat.add_assoc] at h ⊢
      obtain ⟨mid, hmid, htake, hdrop⟩ := output.copyAt_spec position part
        (by omega)
      obtain ⟨out, hout, htake', hdrop'⟩ := @ih (position + part.length) mid h
      refine ⟨out, by rw [copyParts, hmid, Option.bind_some, hout], ?_, ?_⟩
      · rw [htake', htake, List.append_assoc]
      · rw [hdrop', ← List.drop_drop, hdrop, List.drop_drop]

/-- The array after a successful `write_parts`: the line, then what was there. -/
def Wrote (line : Bytes) (output out : LineArray) : Prop :=
  out.bytes = line ++ output.bytes.drop line.length

theorem Wrote.take {line : Bytes} {output out : LineArray} (h : Wrote line output out) :
    out.bytes.take line.length = line := by
  rw [h]
  exact List.take_left

theorem Wrote.drop {line : Bytes} {output out : LineArray} (h : Wrote line output out) :
    out.bytes.drop line.length = output.bytes.drop line.length := by
  rw [h]
  exact List.drop_left

theorem writeParts_spec (parts : List Bytes) (output : LineArray) :
    (∃ out, writeParts parts output = (.ok (parts.flatten.length + 1), out) ∧
        (∀ part ∈ parts, isCleanLine part = true) ∧
        parts.flatten.length + 1 ≤ maxLineBytes ∧
        Wrote (parts.flatten ++ [lf]) output out) ∨
      (∃ e, writeParts parts output = (.err e, output)) ∧
        ¬ ((∀ part ∈ parts, isCleanLine part = true) ∧
          parts.flatten.length + 1 ≤ maxLineBytes) := by
  unfold writeParts
  rcases measureParts_total parts 1 with ⟨total, ht⟩ | ⟨e, he⟩
  · left
    obtain ⟨hclean, hle, rfl⟩ := (measureParts_eq_ok (by decide)).mp ht
    obtain ⟨mid, hmid, htake, hdrop⟩ := @copyParts_spec parts 0 output (by omega)
    rw [Nat.zero_add] at hmid htake hdrop
    obtain ⟨out, hout, htake', hdrop'⟩ := mid.set_spec parts.flatten.length lf
      (by omega)
    refine ⟨out, ?_, hclean, by omega, ?_⟩
    · rw [ht, hmid, Option.bind_some]
      show (match mid.set _ lf with | some output => _ | none => _) = _
      rw [hout, Nat.add_comm]
    · rw [Wrote, ← List.take_append_drop (parts.flatten.length + 1) out.bytes, htake', htake,
        hdrop', ← List.drop_drop, hdrop, List.drop_drop]
      simp
  · right
    rw [he]
    refine ⟨⟨e, rfl⟩, fun ⟨hclean, hle⟩ => ?_⟩
    have hok : measureParts parts 1 = .ok (1 + parts.flatten.length) :=
      (measureParts_eq_ok (by decide)).mpr ⟨hclean, by omega, rfl⟩
    rw [he] at hok
    exact absurd hok (by simp)

/-! ## The text of a response -/

/-- A separator and a field, or nothing for an empty field. -/
def optionalField (field : Bytes) : Bytes := if field = [] then [] else space :: field

/-- The line `encode_response` writes, without its LF. -/
def responseBody : ServerLine → Bytes
  | .ok text => asBytes "OK" ++ optionalField text
  | .err code text => asBytes "ERR " ++ decimal code.toNat ++ optionalField text
  | .data data => asBytes "D " ++ data
  | .status keyword args => asBytes "S " ++ asBytes keyword ++ optionalField args
  | .inquire keyword args => asBytes "INQUIRE " ++ asBytes keyword ++ optionalField args
  | .end_ => asBytes "END"
  | .comment text => asBytes "#" ++ text
  | .empty => []

/-- The fields `encode_response` checks beyond the bytes of the line. -/
def FieldsValid : ServerLine → Prop
  | .data data => validateEncodedData data = .ok ()
  | .status keyword _ => isKeyword (asBytes keyword)
  | .inquire keyword _ => isKeyword (asBytes keyword)
  | _ => True

/-- An encoder either writes one whole clean line within the limit, or fails
and leaves the array alone. -/
def WritesLine (body : Bytes) (valid : Prop) (output : LineArray)
    (result : Outcome ProtocolError ℕ × LineArray) : Prop :=
  (∃ out, result = (.ok (body.length + 1), out) ∧ valid ∧ isCleanLine body = true ∧
      body.length + 1 ≤ maxLineBytes ∧ Wrote (body ++ [lf]) output out) ∨
    (∃ e, result = (.err e, output)) ∧
      ¬ (valid ∧ isCleanLine body = true ∧ body.length + 1 ≤ maxLineBytes)

theorem isCleanLine_flatten {parts : List Bytes} :
    isCleanLine parts.flatten = true ↔ ∀ part ∈ parts, isCleanLine part = true := by
  induction parts with
  | nil => simp
  | cons part parts ih => simp [ih]

theorem writeParts_writesLine (parts : List Bytes) (output : LineArray) :
    WritesLine parts.flatten True output (writeParts parts output) := by
  rcases writeParts_spec parts output with ⟨out, hout, hclean, hle, hw⟩ | ⟨herr, hnot⟩
  · exact Or.inl ⟨out, hout, trivial, isCleanLine_flatten.mpr hclean, hle, hw⟩
  · exact Or.inr ⟨herr, fun h => hnot ⟨isCleanLine_flatten.mp h.2.1, h.2.2⟩⟩

theorem WritesLine.of_valid {body : Bytes} {valid : Prop} {output : LineArray}
    {result : Outcome ProtocolError ℕ × LineArray} (h : WritesLine body True output result)
    (hv : valid) : WritesLine body valid output result := by
  simpa [WritesLine, hv] using h

theorem WritesLine.of_invalid {body : Bytes} {valid : Prop} {output : LineArray}
    (e : ProtocolError) (hv : ¬ valid) : WritesLine body valid output (.err e, output) :=
  Or.inr ⟨⟨e, rfl⟩, fun h => hv h.1⟩

theorem writeOptional_writesLine (tag text : Bytes) (output : LineArray) :
    WritesLine (tag ++ optionalField text) True output (writeOptional tag text output) := by
  unfold writeOptional optionalField
  split
  · simpa using writeParts_writesLine [tag] output
  · simpa using writeParts_writesLine [tag, [space], text] output

theorem writeKeyword_writesLine (tag : Bytes) (keyword : String) (args : Bytes)
    (output : LineArray) :
    WritesLine (tag ++ asBytes keyword ++ optionalField args) (isKeyword (asBytes keyword))
      output (writeKeyword tag keyword args output) := by
  unfold writeKeyword
  by_cases ht : isToken (asBytes keyword) = true
  · rw [validateToken_eq_ok.mpr ht, Outcome.ok_bind]
    cases hk : keywordStart (asBytes keyword) with
    | none =>
        cases hb : asBytes keyword with
        | nil => simp [hb, isToken] at ht
        | cons b bs => simp [hb, keywordStart] at hk
    | some letter =>
        cases letter with
        | false =>
            exact WritesLine.of_invalid _ fun h => by simp [h.2] at hk
        | true =>
            apply WritesLine.of_valid _ ⟨ht, hk⟩
            simp only [Outcome.index_some, Outcome.ok_bind, if_true, optionalField]
            split
            · simpa using writeParts_writesLine [tag, asBytes keyword] output
            · simpa using writeParts_writesLine [tag, asBytes keyword, [space], args] output
  · rw [validateToken, if_neg ht]
    exact WritesLine.of_invalid _ fun h => ht h.1

theorem validateEncodedData_total (data : Bytes) :
    validateEncodedData data = .ok () ∨ validateEncodedData data = .err .invalidEscape := by
  fun_induction validateEncodedData data <;> simp_all

/-- `encode_response` writes exactly `responseBody` and an LF, or fails with the
array unchanged. -/
theorem encodeResponse_writesLine (line : ServerLine) (output : LineArray) :
    WritesLine (responseBody line) (FieldsValid line) output (encodeResponse line output) := by
  cases line with
  | ok text => exact writeOptional_writesLine _ text output
  | err code text =>
      have hroom : (decimal code.toNat).length ≤ 10 :=
        decimal_length_le (Nat.lt_trans code.toNat_lt (by decide))
      obtain ⟨start, digits, hrun, hdigits⟩ :=
        @digitLoop_spec ProtocolError 10 code.toNat 10 (Buffer.zero 10) (Nat.le_refl _) hroom
      have hdec : digits.bytes.drop start = decimal code.toNat := by
        rw [hdigits, List.drop_of_length_le (by rw [Buffer.size]), List.append_nil]
      unfold encodeResponse responseBody optionalField
      simp only [hrun, hdec]
      split
      · simpa [FieldsValid] using
          writeParts_writesLine [asBytes "ERR ", decimal code.toNat] output
      · simpa [FieldsValid] using
          writeParts_writesLine [asBytes "ERR ", decimal code.toNat, [space], text] output
  | data data =>
      rcases validateEncodedData_total data with h | h
      · simp only [encodeResponse, h]
        exact WritesLine.of_valid
          (by simpa [responseBody] using writeParts_writesLine [asBytes "D ", data] output) h
      · simp only [encodeResponse, h]
        exact WritesLine.of_invalid _ fun hv => by simp [FieldsValid, h] at hv
  | status keyword args => exact writeKeyword_writesLine _ keyword args output
  | inquire keyword args => exact writeKeyword_writesLine _ keyword args output
  | end_ =>
      simpa [responseBody, encodeResponse, FieldsValid] using
        writeParts_writesLine [asBytes "END"] output
  | comment text =>
      simpa [responseBody, encodeResponse, FieldsValid] using
        writeParts_writesLine [asBytes "#", text] output
  | empty => exact writeParts_writesLine [] output

theorem writeParts_err {parts : List Bytes} {output : LineArray} {e : ProtocolError}
    (hclean : ∀ part ∈ parts, isCleanLine part = true)
    (h : (writeParts parts output).1 = .err e) : e = .lineTooLong := by
  unfold writeParts at h
  cases hm : measureParts parts 1 with
  | ok total =>
      rw [hm] at h
      dsimp only at h
      split at h
      · exact absurd h (by simp)
      · exact absurd h (by simp)
  | err e' =>
      rw [hm] at h
      obtain rfl : e' = e := Outcome.err.inj h
      exact measureParts_err hclean hm
  | panic =>
      rw [hm] at h
      exact absurd h (by simp)
  | dropped =>
      rw [hm] at h
      exact absurd h (by simp)

/-- The line `encode_command` writes, without its LF. -/
def commandBody (command : Command) : Bytes :=
  asBytes command.name ++ optionalField command.args

theorem encodeCommand_writesLine (command : Command) (output : LineArray) :
    WritesLine (commandBody command) True output (encodeCommand command output) := by
  unfold encodeCommand commandBody optionalField
  split
  · simpa using writeParts_writesLine [asBytes command.name] output
  · simpa using writeParts_writesLine [asBytes command.name, [space], command.args] output

/-- A command is clean by construction, so only its length can be refused. -/
theorem encodeCommand_err {command : Command} {output : LineArray} {e : ProtocolError}
    (h : (encodeCommand command output).1 = .err e) : e = .lineTooLong := by
  have hname := isToken_clean command.name_token
  unfold encodeCommand at h
  split at h
  · apply writeParts_err _ h
    simp [hname]
  · apply writeParts_err _ h
    have hspace : isCleanLine [space] = true := by decide
    simp [hname, command.args_clean, hspace]

/-! ## Data chunks -/

/-- One payload byte on the wire. -/
def escapeByte (b : UInt8) : Bytes := (escapeOf b).getD [b]

/-- A payload on the wire. -/
def escapeBytes (payload : Bytes) : Bytes := payload.flatMap escapeByte

/-- How many leading bytes of the input the greedy loop takes when `written`
bytes of the line are used. -/
def chunkFit : ℕ → Bytes → ℕ
  | _, [] => 0
  | written, b :: rest =>
      if written + (escapeByte b).length ≥ maxLineBytes then 0
      else chunkFit (written + (escapeByte b).length) rest + 1

/-- The line `encode_data_chunk` writes, without its LF. -/
def chunkBody (input : Bytes) : Bytes :=
  asBytes "D " ++ escapeBytes (input.take (chunkFit 2 input))

theorem escapeOf_length {b : UInt8} {escape : Bytes} (h : escapeOf b = some escape) :
    escape.length = 3 := by
  unfold escapeOf at h
  split at h
  · rw [← Option.some.inj h]; rfl
  · split at h
    · rw [← Option.some.inj h]; rfl
    · split at h
      · rw [← Option.some.inj h]; rfl
      · split at h
        · rw [← Option.some.inj h]; rfl
        · exact absurd h (by simp)

theorem escapeByte_length (b : UInt8) :
    (escapeByte b).length = if (escapeOf b).isSome then 3 else 1 := by
  unfold escapeByte
  cases h : escapeOf b with
  | none => simp
  | some escape => simpa using escapeOf_length h

theorem chunkFit_le (written : ℕ) (input : Bytes) : chunkFit written input ≤ input.length := by
  induction input generalizing written with
  | nil => exact Nat.le_refl _
  | cons b rest ih =>
      rw [chunkFit]
      split
      · exact Nat.zero_le _
      · exact Nat.succ_le_succ (ih _)

/-- Nonempty input always makes progress. -/
theorem chunkFit_pos {input : Bytes} (h : input ≠ []) : 0 < chunkFit 2 input := by
  cases input with
  | nil => exact absurd rfl h
  | cons b rest =>
      have hl : (escapeByte b).length ≤ 3 := by
        rw [escapeByte_length]
        split <;> decide
      rw [chunkFit, if_neg (by simp only [maxLineBytes]; omega)]
      exact Nat.succ_pos _

theorem chunkFit_bound {written : ℕ} (input : Bytes) (h : written < maxLineBytes) :
    written + (escapeBytes (input.take (chunkFit written input))).length < maxLineBytes := by
  induction input generalizing written with
  | nil => simpa [escapeBytes] using h
  | cons b rest ih =>
      rw [chunkFit]
      split
      · simpa [escapeBytes] using h
      · have := @ih (written + (escapeByte b).length) (by omega)
        rw [List.take_succ_cons, escapeBytes, List.flatMap_cons, List.length_append,
          ← Nat.add_assoc]
        exact this

theorem chunkLoop_spec {input : Bytes} {output : LineArray} {written consumed : ℕ}
    (h : written < maxLineBytes) :
    let fit := chunkFit written input
    let text := escapeBytes (input.take fit)
    ∃ out, chunkLoop input output written consumed =
        some (consumed + fit, written + text.length, out) ∧
      out.bytes.take (written + text.length) = output.bytes.take written ++ text ∧
      out.bytes.drop (written + text.length) = output.bytes.drop (written + text.length) := by
  induction input generalizing output written consumed with
  | nil => exact ⟨output, by simp [chunkLoop, chunkFit, escapeBytes]⟩
  | cons b rest ih =>
      simp only [chunkLoop, chunkFit, ← escapeByte_length]
      split
      · exact ⟨output, by simp [escapeBytes]⟩
      · next hlt =>
          -- both ways of storing the byte put `escapeByte b` at `written`
          have hstore : ∃ mid, (match escapeOf b with
              | some escape => output.copyAt written escape
              | none => output.set written b) = some mid ∧
              mid.bytes.take (written + (escapeByte b).length) =
                output.bytes.take written ++ escapeByte b ∧
              mid.bytes.drop (written + (escapeByte b).length) =
                output.bytes.drop (written + (escapeByte b).length) := by
            cases hesc : escapeOf b with
            | none =>
                have hbyte : escapeByte b = [b] := by simp [escapeByte, hesc]
                rw [hbyte]
                exact output.set_spec written b h
            | some escape =>
                have hbyte : escapeByte b = escape := by simp [escapeByte, hesc]
                rw [hbyte] at hlt ⊢
                exact output.copyAt_spec written escape (by omega)
          obtain ⟨mid, hmid, htake, hdrop⟩ := hstore
          obtain ⟨out, hout, htake', hdrop'⟩ :=
            @ih mid (written + (escapeByte b).length) (consumed + 1) (by omega)
          refine ⟨out, ?_, ?_, ?_⟩
          · rw [hmid, Option.bind_some, hout]
            simp only [List.take_succ_cons, escapeBytes, List.flatMap_cons, List.length_append]
            rw [Nat.add_assoc consumed, Nat.add_comm 1, Nat.add_assoc written]
          · rw [List.take_succ_cons, escapeBytes, List.flatMap_cons, List.length_append,
              ← Nat.add_assoc]
            rw [escapeBytes] at htake'
            rw [htake', htake, List.append_assoc]
          · rw [List.take_succ_cons, escapeBytes, List.flatMap_cons, List.length_append,
              ← Nat.add_assoc]
            rw [escapeBytes] at hdrop'
            rw [hdrop', ← List.drop_drop, hdrop, List.drop_drop]

/-- `encode_data_chunk` never fails: it writes `chunkBody` and an LF, within the
limit. -/
theorem encodeDataChunk_spec (input : Bytes) (output : LineArray) :
    ∃ out, encodeDataChunk input output =
        (.ok (chunkFit 2 input, (chunkBody input).length + 1), out) ∧
      (chunkBody input).length + 1 ≤ maxLineBytes ∧
      Wrote (chunkBody input ++ [lf]) output out := by
  have htag : (asBytes "D ").length = 2 := rfl
  have hbound := chunkFit_bound input (show 2 < maxLineBytes by decide)
  have hlen : (chunkBody input).length =
      2 + (escapeBytes (input.take (chunkFit 2 input))).length := by
    rw [chunkBody, List.length_append, htag]
  obtain ⟨o1, h1, htake1, hdrop1⟩ := output.copyAt_spec 0 (asBytes "D ")
    (by rw [htag]; decide)
  obtain ⟨o2, h2, htake2, hdrop2⟩ := @chunkLoop_spec input o1 2 0 (by decide)
  rw [htag, Nat.zero_add] at htake1 hdrop1
  rw [← hlen] at h2 htake2 hdrop2 hbound
  obtain ⟨o3, h3, htake3, hdrop3⟩ := o2.set_spec (chunkBody input).length lf hbound
  refine ⟨o3, ?_, hbound, ?_⟩
  · unfold encodeDataChunk
    simp [h1, h2, h3]
  · rw [Wrote, ← List.take_append_drop ((chunkBody input).length + 1) o3.bytes, htake3, htake2,
      htake1, hdrop3, ← List.drop_drop, hdrop2, List.drop_drop]
    rw [show (chunkBody input).length + 1 = 2 + ((chunkBody input).length - 1) by omega,
      ← List.drop_drop, hdrop1, List.drop_drop, chunkBody]
    simp
    omega

end Assuan
