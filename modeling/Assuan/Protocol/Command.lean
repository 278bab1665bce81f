import Assuan.Foundation.Lines
import Assuan.Foundation.Buffer

/-!
# Command lines (`assuan-protocol/src/command.rs`, `error.rs`)

Field validation and the borrowed command view. A `Command` can only be made
by `Command.new` or `Command.parse`, so the structure carries the two facts
both of them check: the name is a token and the arguments fit on one line.
-/

namespace Assuan

inductive LimitError : Type where
  | allocationFailed
  | lengthOverflow
  | capacityExceeded
deriving DecidableEq, Repr

inductive ProtocolError : Type where
  | invalidLine
  | invalidToken
  | invalidResponse
  | invalidErrorCode
  | invalidEscape
  | lineTooLong
  | unexpectedEof
deriving DecidableEq, Repr

/-! ## Text and bytes -/

def lf : UInt8 := 10
def cr : UInt8 := 13
def space : UInt8 := 32
def percent : UInt8 := 37

/-- `str::as_bytes`, also used for byte-string literals. -/
def asBytes (text : String) : Bytes := text.toByteArray.data.toList

/-- `core::str::from_utf8`. -/
def fromUtf8 (bytes : Bytes) : Option String := String.fromUTF8? ⟨⟨bytes⟩⟩

theorem fromUtf8_eq_some {bytes : Bytes} {text : String} :
    fromUtf8 bytes = some text ↔ asBytes text = bytes := by
  unfold fromUtf8 String.fromUTF8? asBytes
  constructor
  · intro h
    split at h
    · rw [← Option.some.inj h]
      rfl
    · exact absurd h (by simp)
  · rintro rfl
    rw [dif_pos text.isValidUTF8]
    rfl

@[simp] theorem fromUtf8_asBytes (text : String) : fromUtf8 (asBytes text) = some text :=
  fromUtf8_eq_some.mpr rfl

theorem asBytes_injective : Function.Injective asBytes := by
  intro a b h
  have hb : fromUtf8 (asBytes a) = some b := fromUtf8_eq_some.mpr h.symm
  rw [fromUtf8_asBytes] at hb
  exact Option.some.inj hb

theorem asBytes_append (s t : String) : asBytes (s ++ t) = asBytes s ++ asBytes t := by
  simp [asBytes]

theorem asBytes_ofList (chars : List Char) :
    asBytes (String.ofList chars) = chars.flatMap String.utf8EncodeChar := by
  simp [asBytes, List.utf8Encode]

/-- A single ASCII byte is the UTF-8 encoding of its own character. -/
theorem utf8EncodeChar_ascii {b : UInt8} (h : b.toNat < 128) :
    String.utf8EncodeChar (Char.ofNat b.toNat) = [b] := by
  have hv : (Char.ofNat b.toNat).val.toNat = b.toNat := by
    rw [Char.ofNat, dif_pos (Or.inl (by omega))]
    rfl
  rw [String.utf8EncodeChar, hv, if_pos (by omega)]
  simp

theorem isValidUTF8_ascii {bytes : Bytes} (h : ∀ b ∈ bytes, b.toNat < 128) :
    (⟨⟨bytes⟩⟩ : ByteArray).IsValidUTF8 := by
  refine ⟨bytes.map fun b => Char.ofNat b.toNat, ?_⟩
  rw [List.utf8Encode]
  have hflat : (bytes.map fun b => Char.ofNat b.toNat).flatMap String.utf8EncodeChar = bytes := by
    induction bytes with
    | nil => rfl
    | cons b bs ih =>
        rw [List.map_cons, List.flatMap_cons, utf8EncodeChar_ascii (h b List.mem_cons_self),
          ih fun x hx => h x (List.mem_cons_of_mem _ hx)]
        rfl
  rw [hflat]
  exact ByteArray.ext List.data_toByteArray.symm

theorem fromUtf8_ascii {bytes : Bytes} (h : ∀ b ∈ bytes, b.toNat < 128) :
    ∃ text, fromUtf8 bytes = some text := by
  unfold fromUtf8 String.fromUTF8?
  rw [dif_pos (isValidUTF8_ascii h)]
  exact ⟨_, rfl⟩

/-! ## Field validation -/

/-- The bytes no line may contain: `0 | b'\r' | b'\n'`. -/
def isForbidden (b : UInt8) : Bool := b == 0 || b == cr || b == lf

def isCleanLine (line : Bytes) : Bool := !line.any isForbidden

def validateLine (line : Bytes) : Outcome ProtocolError Unit :=
  if isCleanLine line then .ok () else .err .invalidLine

/-- `u8::is_ascii_graphic`. -/
def isAsciiGraphic (b : UInt8) : Bool := 0x21 ≤ b ∧ b ≤ 0x7E

/-- `!token.is_empty() && token[0] != b'#' && token.iter().all(..)`. -/
def isToken : Bytes → Bool
  | [] => false
  | first :: rest =>
      first != 35 && (first :: rest).all fun b => isAsciiGraphic b && b != percent

def validateToken (token : Bytes) : Outcome ProtocolError Unit :=
  if isToken token then .ok () else .err .invalidToken

/-- Splits at the first space, which belongs to neither field. -/
def splitField (bytes : Bytes) : Bytes × Bytes :=
  match bytes.findIdx? (· == space) with
  | some index => (bytes.take index, bytes.drop (index + 1))
  | none => (bytes, [])

theorem isCleanLine_iff {line : Bytes} :
    isCleanLine line = true ↔ ∀ b ∈ line, b ≠ 0 ∧ b ≠ cr ∧ b ≠ lf := by
  simp [isCleanLine, isForbidden, and_assoc]

@[simp] theorem isCleanLine_nil : isCleanLine [] = true := rfl

@[simp] theorem isCleanLine_append {a b : Bytes} :
    isCleanLine (a ++ b) = (isCleanLine a && isCleanLine b) := by
  simp [isCleanLine]

@[simp] theorem isCleanLine_cons {b : UInt8} {bs : Bytes} :
    isCleanLine (b :: bs) = (!isForbidden b && isCleanLine bs) := by
  simp [isCleanLine]

theorem isCleanLine_of_sublist {a b : Bytes} (hs : a.Sublist b)
    (h : isCleanLine b = true) : isCleanLine a = true := by
  rw [isCleanLine_iff] at h ⊢
  exact fun x hx => h x (hs.subset hx)

theorem validateLine_eq_ok {line : Bytes} :
    validateLine line = .ok () ↔ isCleanLine line = true := by
  unfold validateLine
  split <;> simp_all

theorem validateToken_eq_ok {token : Bytes} :
    validateToken token = .ok () ↔ isToken token = true := by
  unfold validateToken
  split <;> simp_all

/-- Every byte of a token is printable ASCII other than `%`. -/
theorem isToken_byte {token : Bytes} (h : isToken token = true) :
    ∀ b ∈ token, 0x21 ≤ b.toNat ∧ b.toNat ≤ 0x7E ∧ b ≠ percent := by
  cases token with
  | nil => simp [isToken] at h
  | cons first rest =>
      rw [isToken, Bool.and_eq_true, List.all_eq_true] at h
      intro b hb
      have hg := h.2 b hb
      simp only [isAsciiGraphic, Bool.and_eq_true, decide_eq_true_eq, bne_iff_ne,
        UInt8.le_iff_toNat_le] at hg
      exact ⟨hg.1.1, hg.1.2, hg.2⟩

theorem isToken_clean {token : Bytes} (h : isToken token = true) :
    isCleanLine token = true := by
  rw [isCleanLine_iff]
  intro b hb
  have hr := isToken_byte h b hb
  refine ⟨?_, ?_, ?_⟩ <;> rintro rfl <;> simp [cr, lf] at hr

theorem isToken_no_space {token : Bytes} (h : isToken token = true) : space ∉ token := by
  intro hmem
  have hr := isToken_byte h _ hmem
  simp [space] at hr

/-- `from_utf8` cannot fail on a name or a keyword. -/
theorem isToken_fromUtf8 {token : Bytes} (h : isToken token = true) :
    ∃ text, fromUtf8 token = some text := by
  apply fromUtf8_ascii
  intro b hb
  have hrange := isToken_byte h b hb
  omega

theorem splitField_of_not_mem {bytes : Bytes} (h : space ∉ bytes) :
    splitField bytes = (bytes, []) := by
  have hnone : bytes.findIdx? (· == space) = none := by
    rw [List.findIdx?_eq_none_iff]
    intro x hx
    simp only [beq_eq_false_iff_ne, ne_eq]
    rintro rfl
    exact h hx
  rw [splitField, hnone]

theorem splitField_append {field rest : Bytes} (h : space ∉ field) :
    splitField (field ++ space :: rest) = (field, rest) := by
  have hidx : (field ++ space :: rest).findIdx? (· == space) = some field.length := by
    rw [List.findIdx?_append, List.findIdx?_eq_none_iff.mpr]
    · simp [List.findIdx?_cons]
    · intro x hx
      simp only [beq_eq_false_iff_ne, ne_eq]
      rintro rfl
      exact h hx
  rw [splitField, hidx]
  simp

theorem splitField_sublist (bytes : Bytes) :
    (splitField bytes).1.Sublist bytes ∧ (splitField bytes).2.Sublist bytes := by
  unfold splitField
  split
  · exact ⟨List.take_sublist _ _, List.drop_sublist _ _⟩
  · exact ⟨List.Sublist.refl _, List.nil_sublist _⟩

theorem splitField_isPrefix (bytes : Bytes) : (splitField bytes).1 <+: bytes := by
  unfold splitField
  split
  · exact List.take_prefix _ _
  · exact List.prefix_refl _

/-- The field ends before the first space, or nothing follows it. -/
theorem splitField_spec (bytes : Bytes) :
    ((splitField bytes).2 = [] ∧ bytes = (splitField bytes).1) ∨
      bytes = (splitField bytes).1 ++ space :: (splitField bytes).2 := by
  unfold splitField
  split
  · next index hindex =>
      obtain ⟨hlt, hspace, -⟩ := List.findIdx?_eq_some_iff_getElem.mp hindex
      have hb : bytes[index] = space := by simpa using hspace
      refine Or.inr ?_
      conv_lhs => rw [← List.take_append_drop index bytes, List.drop_eq_getElem_cons hlt, hb]
  · exact Or.inl ⟨rfl, rfl⟩

/-! ## Commands -/

structure Command : Type where
  name : String
  args : Bytes
  name_token : isToken (asBytes name) = true
  args_clean : isCleanLine args = true
deriving DecidableEq

/-- `Command::new`: `validate_token(name)?; validate_line(args)?`. -/
def Command.new (name : String) (args : Bytes) : Outcome ProtocolError Command :=
  if ht : isToken (asBytes name) = true then
    if hc : isCleanLine args = true then .ok ⟨name, args, ht, hc⟩
    else .err .invalidLine
  else .err .invalidToken

/-- `Command::parse`: the line is validated first, then its first field. -/
def Command.parse (line : Bytes) : Outcome ProtocolError Command :=
  if hc : isCleanLine line = true then
    if ht : isToken (splitField line).1 = true then
      match hu : fromUtf8 (splitField line).1 with
      | some name =>
          .ok ⟨name, (splitField line).2, by rw [fromUtf8_eq_some.mp hu]; exact ht,
            isCleanLine_of_sublist (splitField_sublist line).2 hc⟩
      | none => .err .invalidToken
    else .err .invalidToken
  else .err .invalidLine

theorem Command.new_eq_ok {name : String} {args : Bytes} {command : Command} :
    Command.new name args = .ok command ↔ command.name = name ∧ command.args = args := by
  unfold Command.new
  constructor
  · intro h
    split at h
    · split at h
      · rw [← Outcome.ok.inj h]
        exact ⟨rfl, rfl⟩
      · exact absurd h (by simp)
    · exact absurd h (by simp)
  · rintro ⟨rfl, rfl⟩
    rw [dif_pos command.name_token, dif_pos command.args_clean]

/-- What `Command.parse` accepts, and what it returns. -/
theorem Command.parse_eq_ok {line : Bytes} {command : Command} :
    Command.parse line = .ok command ↔
      isCleanLine line = true ∧ splitField line = (asBytes command.name, command.args) := by
  unfold Command.parse
  constructor
  · intro h
    split at h
    · next hc =>
        refine ⟨hc, ?_⟩
        split at h
        · split at h
          · next hu =>
              rw [← Outcome.ok.inj h]
              show _ = (asBytes _, _)
              rw [fromUtf8_eq_some.mp hu]
          · exact absurd h (by simp)
        · exact absurd h (by simp)
    · exact absurd h (by simp)
  · rintro ⟨hc, hs⟩
    have hname : (splitField line).1 = asBytes command.name := by rw [hs]
    have hargs : (splitField line).2 = command.args := by rw [hs]
    have ht : isToken (splitField line).1 = true := by rw [hname]; exact command.name_token
    rw [dif_pos hc, dif_pos ht]
    split
    · next text hu =>
        rw [hname, fromUtf8_asBytes] at hu
        have htext : command.name = text := Option.some.inj hu
        congr 1
        cases command
        simp_all
    · next hu =>
        rw [hname, fromUtf8_asBytes] at hu
        exact absurd hu (by simp)

end Assuan
