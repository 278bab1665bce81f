import Assuan.Foundation.Decimal
import Assuan.Protocol.Command

/-!
# Server responses (`assuan-protocol/src/message.rs`)

The eight response categories and the parser of a framed response line. The
parser dispatches on prefixes in a fixed order; `parseServerLine_tagged` is the
one place that order is looked at.
-/

namespace Assuan

inductive ServerLine : Type where
  | ok (text : Bytes)
  | err (code : UInt32) (text : Bytes)
  | data (bytes : Bytes)
  | status (keyword : String) (args : Bytes)
  | inquire (keyword : String) (args : Bytes)
  | end_
  | comment (text : Bytes)
  | empty
deriving DecidableEq

/-- `slice::strip_prefix`. -/
def stripPrefix (tag line : Bytes) : Option Bytes := line.dropPrefix? tag

/-- `u8::is_ascii_alphabetic`. -/
def isAsciiAlphabetic (b : UInt8) : Bool := (65 ≤ b ∧ b ≤ 90) ∨ (97 ≤ b ∧ b ≤ 122)

/-- `keyword[0].is_ascii_alphabetic() || keyword[0] == b'_'`; `none` is the
index panic of an empty keyword. -/
def keywordStart : Bytes → Option Bool
  | [] => none
  | first :: _ => some (isAsciiAlphabetic first || first == 95)

def parseKeyword (fields : Bytes) : Outcome ProtocolError (String × Bytes) := do
  let (keyword, args) := splitField fields
  validateToken keyword
  if (← Outcome.index (keywordStart keyword)) then
    let keyword ← Outcome.okOr .invalidToken (fromUtf8 keyword)
    .ok (keyword, args)
  else .err .invalidToken

/-- The digit loop of an `ERR` line, with `u32` checked arithmetic. -/
def parseCode : ℕ → Bytes → Outcome ProtocolError ℕ
  | code, [] => .ok code
  | code, digit :: rest =>
      if isAsciiDigit digit then do
        let code ← Outcome.okOr .invalidErrorCode (checkedPush u32Max code digit)
        parseCode code rest
      else .err .invalidErrorCode

def parseErr (fields : Bytes) : Outcome ProtocolError ServerLine := do
  let (number, text) := splitField fields
  if number = [] then .err .invalidErrorCode
  else
    let code ← parseCode 0 number
    .ok (.err (UInt32.ofNat code) text)

def parseServerLine (line : Bytes) : Outcome ProtocolError ServerLine :=
  validateLine line >>= fun _ =>
  if line = [] then .ok .empty else
  match stripPrefix (asBytes "#") line with
  | some comment => .ok (.comment comment)
  | none =>
  if line = asBytes "OK" then .ok (.ok []) else
  match stripPrefix (asBytes "OK ") line with
  | some text => .ok (.ok text)
  | none =>
  match stripPrefix (asBytes "ERR ") line with
  | some fields => parseErr fields
  | none =>
  match stripPrefix (asBytes "D ") line with
  | some data => .ok (.data data)
  | none =>
  match stripPrefix (asBytes "S ") line with
  | some fields => parseKeyword fields >>= fun p => .ok (.status p.1 p.2)
  | none =>
  match stripPrefix (asBytes "INQUIRE ") line with
  | some fields => parseKeyword fields >>= fun p => .ok (.inquire p.1 p.2)
  | none =>
  if line = asBytes "END" then .ok .end_ else .err .invalidResponse

/-! ## Prefixes -/

theorem stripPrefix_nil (line : Bytes) : stripPrefix [] line = some line := by
  cases line <;> rfl

theorem stripPrefix_cons (t : UInt8) (tag : Bytes) (b : UInt8) (line : Bytes) :
    stripPrefix (t :: tag) (b :: line) = if b = t then stripPrefix tag line else none := by
  simp [stripPrefix, List.dropPrefix?]

theorem stripPrefix_eq_some {tag line rest : Bytes} :
    stripPrefix tag line = some rest ↔ line = tag ++ rest := by
  rw [stripPrefix, List.dropPrefix?_eq_some_iff]
  constructor
  · rintro ⟨p, hline, hp⟩
    rw [hline, eq_of_beq hp]
  · rintro rfl
    exact ⟨tag, rfl, beq_self_eq_true _⟩

/-! The literals of the grammar as bytes. -/

theorem asBytes_hash : asBytes "#" = [35] := rfl
theorem asBytes_ok : asBytes "OK" = [79, 75] := rfl
theorem asBytes_okSep : asBytes "OK " = [79, 75, 32] := rfl
theorem asBytes_errSep : asBytes "ERR " = [69, 82, 82, 32] := rfl
theorem asBytes_dataSep : asBytes "D " = [68, 32] := rfl
theorem asBytes_statusSep : asBytes "S " = [83, 32] := rfl
theorem asBytes_inquireSep : asBytes "INQUIRE " = [73, 78, 81, 85, 73, 82, 69, 32] := rfl

/-- What `parseServerLine` does on a line that starts with each tag. -/
theorem parseServerLine_tagged (rest : Bytes) :
    parseServerLine (asBytes "#" ++ rest) =
        (validateLine (asBytes "#" ++ rest) >>= fun _ => .ok (.comment rest)) ∧
    parseServerLine (asBytes "OK " ++ rest) =
        (validateLine (asBytes "OK " ++ rest) >>= fun _ => .ok (.ok rest)) ∧
    parseServerLine (asBytes "ERR " ++ rest) =
        (validateLine (asBytes "ERR " ++ rest) >>= fun _ => parseErr rest) ∧
    parseServerLine (asBytes "D " ++ rest) =
        (validateLine (asBytes "D " ++ rest) >>= fun _ => .ok (.data rest)) ∧
    parseServerLine (asBytes "S " ++ rest) =
        (validateLine (asBytes "S " ++ rest) >>= fun _ =>
          parseKeyword rest >>= fun p => .ok (.status p.1 p.2)) ∧
    parseServerLine (asBytes "INQUIRE " ++ rest) =
        (validateLine (asBytes "INQUIRE " ++ rest) >>= fun _ =>
          parseKeyword rest >>= fun p => .ok (.inquire p.1 p.2)) := by
  refine ⟨?_, ?_, ?_, ?_, ?_, ?_⟩ <;>
    simp [parseServerLine, asBytes_hash, asBytes_ok, asBytes_okSep, asBytes_errSep,
      asBytes_dataSep, asBytes_statusSep, asBytes_inquireSep, stripPrefix_cons, stripPrefix_nil]

/-! ## Fields -/

/-- A numeral is read exactly when its value fits in a `u32`, whatever its length. -/
theorem parseCode_eq_ok {acc code : ℕ} {ds : Bytes} (hacc : acc ≤ u32Max) :
    parseCode acc ds = .ok code ↔ (∀ b ∈ ds, isAsciiDigit b = true) ∧
      decimalValue acc ds ≤ u32Max ∧ code = decimalValue acc ds := by
  induction ds generalizing acc with
  | nil =>
      have hvalue : decimalValue acc [] = acc := rfl
      rw [parseCode, hvalue]
      constructor
      · intro h
        exact ⟨by simp, hacc, (Outcome.ok.inj h).symm⟩
      · rintro ⟨-, -, rfl⟩
        rfl
  | cons d ds ih =>
      have hstep : decimalValue acc (d :: ds) = decimalValue (acc * 10 + digitValue d) ds := rfl
      rw [parseCode, List.forall_mem_cons, hstep]
      by_cases hd : isAsciiDigit d = true
      · rw [if_pos hd]
        by_cases hfit : acc * 10 + digitValue d ≤ u32Max
        · rw [checkedPush_eq_some.mpr ⟨hfit, rfl⟩, Outcome.okOr_some, Outcome.ok_bind, ih hfit]
          simp [hd]
        · have hnone : checkedPush u32Max acc d = none :=
            Option.eq_none_iff_forall_not_mem.mpr fun v hv =>
              hfit (by have := checkedPush_eq_some.mp hv; omega)
          have hle := le_decimalValue (acc * 10 + digitValue d) ds
          rw [hnone, Outcome.okOr_none, Outcome.err_bind]
          simp only [reduceCtorEq, false_iff]
          omega
      · rw [if_neg hd]
        simp [hd]

theorem decimal_no_space (n : ℕ) : space ∉ decimal n := by
  intro h
  have := isAsciiDigit_iff.mp (isAsciiDigit_of_mem_decimal n _ h)
  simp [space] at this

theorem parseCode_decimal (code : UInt32) : parseCode 0 (decimal code.toNat) = .ok code.toNat := by
  refine (parseCode_eq_ok (Nat.zero_le _)).mpr ⟨isAsciiDigit_of_mem_decimal _, ?_, ?_⟩
  · rw [decimalValue_decimal, u32Max]
    have := code.toNat_lt
    omega
  · rw [decimalValue_decimal]

/-- What the number field of an `ERR` line may be, and what it reads as. -/
theorem parseErr_eq_ok {fields : Bytes} {parsed : ServerLine} :
    parseErr fields = .ok parsed ↔
      (splitField fields).1 ≠ [] ∧ (∀ b ∈ (splitField fields).1, isAsciiDigit b = true) ∧
      decimalValue 0 (splitField fields).1 ≤ u32Max ∧
      parsed = .err (UInt32.ofNat (decimalValue 0 (splitField fields).1)) (splitField fields).2 := by
  unfold parseErr
  dsimp only
  split
  · next h => simp [h]
  · next h =>
      rw [Outcome.bind_eq_ok]
      constructor
      · rintro ⟨code, hcode, hparsed⟩
        obtain ⟨hdigits, hfit, rfl⟩ := (parseCode_eq_ok (Nat.zero_le _)).mp hcode
        exact ⟨h, hdigits, hfit, (Outcome.ok.inj hparsed).symm⟩
      · rintro ⟨-, hdigits, hfit, rfl⟩
        exact ⟨_, (parseCode_eq_ok (Nat.zero_le _)).mpr ⟨hdigits, hfit, rfl⟩, rfl⟩

/-- A keyword the encoder accepts: a token that starts with a letter or `_`. -/
def isKeyword (bytes : Bytes) : Prop :=
  isToken bytes = true ∧ keywordStart bytes = some true

/-- The keyword is the first field of what was parsed. -/
theorem parseKeyword_eq_ok {fields args : Bytes} {keyword : String} :
    parseKeyword fields = .ok (keyword, args) ↔
      isKeyword (asBytes keyword) ∧ splitField fields = (asBytes keyword, args) := by
  unfold parseKeyword isKeyword
  dsimp only
  constructor
  · intro h
    obtain ⟨u, htoken, h⟩ := Outcome.bind_eq_ok.mp h
    obtain ⟨start, hstart, h⟩ := Outcome.bind_eq_ok.mp h
    split at h
    · next hs =>
        obtain ⟨text, htext, h⟩ := Outcome.bind_eq_ok.mp h
        obtain ⟨rfl, rfl⟩ := Prod.mk.inj (Outcome.ok.inj h)
        rw [fromUtf8_eq_some.mp (Outcome.okOr_eq_ok.mp htext)]
        exact ⟨⟨validateToken_eq_ok.mp htoken, by rw [Outcome.index_eq_ok.mp hstart, hs]⟩, rfl⟩
    · exact absurd h (by simp)
  · rintro ⟨⟨htoken, hstart⟩, hsplit⟩
    simp [hsplit, validateToken, htoken, hstart]

theorem parseKeyword_starts {fields args : Bytes} {keyword : String}
    (h : parseKeyword fields = .ok (keyword, args)) :
    ∃ rest, fields = asBytes keyword ++ rest := by
  obtain ⟨rest, hrest⟩ := splitField_isPrefix fields
  rw [(parseKeyword_eq_ok.mp h).2] at hrest
  exact ⟨rest, hrest.symm⟩

theorem parseKeyword_keyword {keyword : String} (h : isKeyword (asBytes keyword)) :
    parseKeyword (asBytes keyword) = .ok (keyword, []) :=
  parseKeyword_eq_ok.mpr ⟨h, splitField_of_not_mem (isToken_no_space h.1)⟩

theorem parseKeyword_args {keyword : String} (args : Bytes) (h : isKeyword (asBytes keyword)) :
    parseKeyword (asBytes keyword ++ space :: args) = .ok (keyword, args) :=
  parseKeyword_eq_ok.mpr ⟨h, splitField_append (isToken_no_space h.1)⟩

theorem parseCode_returns (code : ℕ) (digits : Bytes) : (parseCode code digits).Returns := by
  induction digits generalizing code with
  | nil => exact Outcome.returns_ok code
  | cons digit rest ih =>
      rw [parseCode]
      split
      · apply (Outcome.returns_okOr _ _).bind
        intro code' _
        exact ih code'
      · exact Outcome.returns_err _

theorem parseErr_returns (fields : Bytes) : (parseErr fields).Returns := by
  unfold parseErr
  dsimp only
  split
  · exact Outcome.returns_err _
  · apply (parseCode_returns 0 _).bind
    intro code _
    exact Outcome.returns_ok _

/-- A token is not empty, so its first byte can be looked at. -/
theorem parseKeyword_returns (fields : Bytes) : (parseKeyword fields).Returns := by
  unfold parseKeyword
  dsimp only
  by_cases htoken : isToken (splitField fields).1 = true
  · rw [validateToken, if_pos htoken, Outcome.ok_bind]
    cases hkeyword : (splitField fields).1 with
    | nil =>
        rw [hkeyword] at htoken
        exact absurd htoken (by simp [isToken])
    | cons first rest =>
        rw [keywordStart, Outcome.index_some, Outcome.ok_bind]
        split
        · apply (Outcome.returns_okOr _ _).bind
          intro keyword _
          exact Outcome.returns_ok _
        · exact Outcome.returns_err _
  · rw [validateToken, if_neg htoken]
    exact Outcome.returns_err _

/-! ## What the parser accepts -/

/-- Whatever the peer sends, the parser returns. -/
theorem parseServerLine_returns (line : Bytes) : (parseServerLine line).Returns := by
  unfold parseServerLine
  apply Outcome.Returns.bind
  · unfold validateLine
    split
    · exact Outcome.returns_ok _
    · exact Outcome.returns_err _
  intro _ _
  split
  · exact Outcome.returns_ok _
  split
  · exact Outcome.returns_ok _
  split
  · exact Outcome.returns_ok _
  split
  · exact Outcome.returns_ok _
  split
  · exact parseErr_returns _
  split
  · exact Outcome.returns_ok _
  split
  · exact (parseKeyword_returns _).bind fun p _ => Outcome.returns_ok _
  split
  · exact (parseKeyword_returns _).bind fun p _ => Outcome.returns_ok _
  split
  · exact Outcome.returns_ok _
  · exact Outcome.returns_err _

/-- The spellings of each response. -/
inductive Spells : Bytes → ServerLine → Prop where
  | empty : Spells [] .empty
  | comment (text : Bytes) : Spells (asBytes "#" ++ text) (.comment text)
  | ok : Spells (asBytes "OK") (.ok [])
  | okText (text : Bytes) : Spells (asBytes "OK " ++ text) (.ok text)
  | err {fields : Bytes} {parsed : ServerLine} (h : parseErr fields = .ok parsed) :
      Spells (asBytes "ERR " ++ fields) parsed
  | data (bytes : Bytes) : Spells (asBytes "D " ++ bytes) (.data bytes)
  | status {fields args : Bytes} {keyword : String}
      (h : parseKeyword fields = .ok (keyword, args)) :
      Spells (asBytes "S " ++ fields) (.status keyword args)
  | inquire {fields args : Bytes} {keyword : String}
      (h : parseKeyword fields = .ok (keyword, args)) :
      Spells (asBytes "INQUIRE " ++ fields) (.inquire keyword args)
  | end_ : Spells (asBytes "END") .end_

/-- The parser accepts clean lines in one of the spellings, and nothing else. -/
theorem parseServerLine_spells {line : Bytes} {parsed : ServerLine}
    (h : parseServerLine line = .ok parsed) : isCleanLine line = true ∧ Spells line parsed := by
  obtain ⟨u, hvalid, h⟩ := Outcome.bind_eq_ok.mp h
  refine ⟨validateLine_eq_ok.mp hvalid, ?_⟩
  split at h
  · next hline => exact hline ▸ Outcome.ok.inj h ▸ .empty
  split at h
  · next text htext => exact stripPrefix_eq_some.mp htext ▸ Outcome.ok.inj h ▸ .comment text
  split at h
  · next hline => exact hline ▸ Outcome.ok.inj h ▸ .ok
  split at h
  · next text htext => exact stripPrefix_eq_some.mp htext ▸ Outcome.ok.inj h ▸ .okText text
  split at h
  · next fields hfields => exact stripPrefix_eq_some.mp hfields ▸ .err h
  split at h
  · next bytes hbytes => exact stripPrefix_eq_some.mp hbytes ▸ Outcome.ok.inj h ▸ .data bytes
  split at h
  · next fields hfields =>
      obtain ⟨p, hp, hparsed⟩ := Outcome.bind_eq_ok.mp h
      exact stripPrefix_eq_some.mp hfields ▸ Outcome.ok.inj hparsed ▸ .status hp
  split at h
  · next fields hfields =>
      obtain ⟨p, hp, hparsed⟩ := Outcome.bind_eq_ok.mp h
      exact stripPrefix_eq_some.mp hfields ▸ Outcome.ok.inj hparsed ▸ .inquire hp
  split at h
  · next hline => exact hline ▸ Outcome.ok.inj h ▸ .end_
  · exact absurd h (by simp)

/-- Only a line with the tag reads as a status or an inquiry. -/
theorem parseServerLine_eq_ok {line : Bytes} {parsed : ServerLine}
    (h : parseServerLine line = .ok parsed) :
    (∀ keyword args, parsed = .status keyword args → ∃ fields,
      line = asBytes "S " ++ fields ∧ parseKeyword fields = .ok (keyword, args)) ∧
    (∀ keyword args, parsed = .inquire keyword args → ∃ fields,
      line = asBytes "INQUIRE " ++ fields ∧ parseKeyword fields = .ok (keyword, args)) := by
  obtain ⟨-, hspells⟩ := parseServerLine_spells h
  cases hspells with
  | status hk =>
      refine ⟨?_, by simp⟩
      rintro _ _ ⟨⟩
      exact ⟨_, rfl, hk⟩
  | inquire hk =>
      refine ⟨by simp, ?_⟩
      rintro _ _ ⟨⟩
      exact ⟨_, rfl, hk⟩
  | err herr =>
      obtain ⟨-, -, -, rfl⟩ := parseErr_eq_ok.mp herr
      exact ⟨by simp, by simp⟩
  | _ => exact ⟨by simp, by simp⟩

end Assuan
