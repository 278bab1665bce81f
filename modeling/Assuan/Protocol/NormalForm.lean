import Assuan.Protocol.RoundTrip

/-!
# Parsing and encoding again

A line has several spellings: a separator before an empty field, leading zeros in
an error code. The encoder writes one of them. It only ever leaves bytes of the
parsed line out, so a line that could be received can be sent again.
-/

namespace Assuan

/-! ## §1 What the encoder leaves out -/

/-- Splitting a field and writing it back drops at most the separator. -/
theorem optionalField_sublist (fields : Bytes) :
    ((splitField fields).1 ++ optionalField (splitField fields).2).Sublist fields := by
  unfold optionalField
  split
  · rw [List.append_nil]
    exact (splitField_isPrefix fields).sublist
  · next hne =>
      rcases splitField_spec fields with ⟨hnil, -⟩ | hsplit
      · exact absurd hnil hne
      · rw [← hsplit]

theorem keywordBody_sublist {fields args : Bytes} {keyword : String}
    (h : parseKeyword fields = .ok (keyword, args)) :
    (asBytes keyword ++ optionalField args).Sublist fields := by
  have hjoin := optionalField_sublist fields
  rwa [(parseKeyword_eq_ok.mp h).2] at hjoin

/-- What the encoder writes is what the parser read, with bytes left out. -/
theorem responseBody_sublist {line : Bytes} {parsed : ServerLine} (h : Spells line parsed) :
    (responseBody parsed).Sublist line := by
  cases h with
  | okText text =>
      rw [responseBody, optionalField]
      split
      · rw [List.append_nil]
        exact (show asBytes "OK" <+: asBytes "OK " ++ text from ⟨space :: text, rfl⟩).sublist
      · exact List.Sublist.refl _
  | err herr =>
      obtain ⟨hne, hdigits, hfit, rfl⟩ := parseErr_eq_ok.mp herr
      have hcode : (UInt32.ofNat (decimalValue 0 (splitField _).1)).toNat = _ :=
        UInt32.toNat_ofNat_of_lt (Nat.lt_succ_of_le hfit)
      rw [responseBody, hcode, List.append_assoc]
      refine List.Sublist.append (List.Sublist.refl _) ?_
      exact ((decimal_suffix hdigits hne).sublist.append (List.Sublist.refl _)).trans
        (optionalField_sublist _)
  | status hk =>
      rw [responseBody, List.append_assoc]
      exact List.Sublist.append (List.Sublist.refl _) (keywordBody_sublist hk)
  | inquire hk =>
      rw [responseBody, List.append_assoc]
      exact List.Sublist.append (List.Sublist.refl _) (keywordBody_sublist hk)
  | _ => exact List.Sublist.refl _

/-- The encoder checks nothing the parser did not, but for the escapes of data. -/
theorem fieldsValid_iff {line : Bytes} {parsed : ServerLine} (h : Spells line parsed) :
    FieldsValid parsed ↔
      ∀ payload, parsed = .data payload → ∃ n, (decodeDataInPlace payload).1 = .ok n := by
  cases h with
  | data payload =>
      have hvalid : FieldsValid (.data payload) ↔ (decodeRef payload).isSome := by
        rw [FieldsValid, validateEncodedData_eq, checkEscapes_eq]
        split
        · next hsome => simp [hsome]
        · next hnone => simp [hnone]
      rw [hvalid]
      constructor
      · rintro hsome _ ⟨⟩
        obtain ⟨decoded, hdecoded⟩ := Option.isSome_iff_exists.mp hsome
        exact ⟨decoded.length, by rw [decodeDataInPlace_eq, hdecoded]⟩
      · intro hdecodes
        obtain ⟨n, hn⟩ := hdecodes payload rfl
        rw [decodeDataInPlace_eq] at hn
        cases hdecoded : decodeRef payload with
        | some decoded => rfl
        | none =>
            rw [hdecoded] at hn
            exact absurd hn (by simp)
  | err herr =>
      obtain ⟨-, -, -, rfl⟩ := parseErr_eq_ok.mp herr
      simp [FieldsValid]
  | status hk => simp [FieldsValid, (parseKeyword_eq_ok.mp hk).1]
  | inquire hk => simp [FieldsValid, (parseKeyword_eq_ok.mp hk).1]
  | _ => simp [FieldsValid]

/-! ## §2 Error codes -/

theorem splitField_digits {number tail : Bytes} (h : ∀ b ∈ number, isAsciiDigit b = true)
    (htail : tail = [] ∨ ∃ text, tail = space :: text) :
    (splitField (number ++ tail)).1 = number := by
  have hspace : space ∉ number := by
    intro hmem
    have := isAsciiDigit_iff.mp (h _ hmem)
    simp [space] at this
  rcases htail with rfl | ⟨text, rfl⟩
  · rw [List.append_nil, splitField_of_not_mem hspace]
  · rw [splitField_append hspace]

/-- The number field of an `ERR` line is read by its value alone. -/
theorem parseServerLine_err_iff {number tail : Bytes} (hne : number ≠ [])
    (hdigits : ∀ b ∈ number, isAsciiDigit b = true)
    (htail : tail = [] ∨ ∃ text, tail = space :: text) (hclean : isCleanLine tail = true) :
    (∃ parsed, parseServerLine (asBytes "ERR " ++ (number ++ tail)) = .ok parsed) ↔
      decimalValue 0 number ≤ u32Max := by
  have hnumber : isCleanLine number = true := by
    rw [isCleanLine_iff]
    intro b hb
    have := isAsciiDigit_iff.mp (hdigits b hb)
    refine ⟨?_, ?_, ?_⟩ <;> rintro rfl <;> simp [cr, lf] at this
  have htag : isCleanLine (asBytes "ERR ") = true := by decide
  have hvalid : isCleanLine (asBytes "ERR " ++ (number ++ tail)) = true := by
    simp [htag, hnumber, hclean]
  have hsplit := splitField_digits hdigits htail
  rw [(parseServerLine_tagged _).2.2.1, validateLine_eq_ok.mpr hvalid, Outcome.ok_bind]
  constructor
  · rintro ⟨parsed, hparsed⟩
    have hfit := (parseErr_eq_ok.mp hparsed).2.2.1
    rwa [hsplit] at hfit
  · intro hfit
    exact ⟨_, parseErr_eq_ok.mpr ⟨by rwa [hsplit], by rwa [hsplit], by rwa [hsplit], rfl⟩⟩

/-! ## §3 The normal form -/

/-- **Parse then encode is a shortening normal form.** A received line of at most 999
bytes can be sent again, a data line when its payload decodes. What is written is no
longer than the line with an LF, reads as the same value and is written again as the
same bytes. Numerals of error codes are accepted by value. -/
theorem parse_encode_normal_form :
    (∀ (l : Bytes) (v : ServerLine), l.length ≤ 999 → parseServerLine l = .ok v →
      (∀ output : LineArray, (∃ n out, encodeResponse v output = (.ok n, out)) ↔
        ∀ payload, v = .data payload → ∃ n, (decodeDataInPlace payload).1 = .ok n) ∧
      ∀ (output : LineArray) n out, encodeResponse v output = (.ok n, out) →
        n ≤ l.length + 1 ∧ ∃ body, out.bytes.take n = body ++ [lf] ∧
          parseServerLine body = .ok v ∧
          ∀ again : LineArray, ∃ out', encodeResponse v again = (.ok n, out') ∧
            out'.bytes.take n = body ++ [lf]) ∧
    (∀ number tail : Bytes, number ≠ [] → (∀ b ∈ number, isAsciiDigit b = true) →
      (tail = [] ∨ ∃ text, tail = space :: text) → isCleanLine tail = true →
      ((∃ v, parseServerLine (asBytes "ERR " ++ (number ++ tail)) = .ok v) ↔
        decimalValue 0 number ≤ 4294967295)) := by
  refine ⟨?_, fun number tail hne hdigits htail hclean =>
    parseServerLine_err_iff hne hdigits htail hclean⟩
  intro l v hlen hparse
  obtain ⟨hclean, hspells⟩ := parseServerLine_spells hparse
  have hsub := responseBody_sublist hspells
  have hbody := isCleanLine_of_sublist hsub hclean
  have hle : (responseBody v).length + 1 ≤ maxLineBytes :=
    Nat.succ_le_succ (Nat.le_trans hsub.length_le hlen)
  constructor
  · intro output
    rw [← fieldsValid_iff hspells]
    rcases encodeResponse_writesLine v output with ⟨out, hrun, hv, -⟩ | ⟨⟨e, hrun⟩, hnot⟩
    · exact ⟨fun _ => hv, fun _ => ⟨_, out, hrun⟩⟩
    · constructor
      · rintro ⟨n, out, hok⟩
        rw [hrun] at hok
        exact absurd (congrArg Prod.fst hok) (by simp)
      · intro hv
        exact absurd ⟨hv, hbody, hle⟩ hnot
  · intro output n out hrun
    obtain ⟨hwritten, hv, -, -⟩ := EncodedAs.body ⟨output, n, out, hrun, rfl⟩
    have hn : n = (responseBody v).length + 1 := by
      rcases encodeResponse_writesLine v output with ⟨out', hout, -⟩ | ⟨⟨e, he⟩, -⟩
      · exact Outcome.ok.inj (congrArg Prod.fst (hrun.symm.trans hout))
      · exact absurd (congrArg Prod.fst (hrun.symm.trans he)) (by simp)
    refine ⟨by rw [hn]; exact Nat.succ_le_succ hsub.length_le, responseBody v, hwritten,
      parseServerLine_responseBody hv hbody, ?_⟩
    intro again
    rcases encodeResponse_writesLine v again with ⟨out', hout, -⟩ | ⟨-, hnot⟩
    · rw [← hn] at hout
      exact ⟨out', hout, (EncodedAs.body ⟨again, n, out', hout, rfl⟩).1⟩
    · exact absurd ⟨hv, hbody, hle⟩ hnot

/-- Leading zeros and a separator before no text: received, and sent again. -/
theorem parse_encode_normal_form_zeros :
    parseServerLine (asBytes "ERR 007 ") = .ok (.err 7 []) ∧
      ∀ output : LineArray, ∃ n out, encodeResponse (.err 7 []) output = (.ok n, out) := by
  have hparse : parseServerLine (asBytes "ERR 007 ") = .ok (.err 7 []) := by decide
  refine ⟨hparse, fun output => ?_⟩
  have hnormal := parse_encode_normal_form.1 (asBytes "ERR 007 ") (.err 7 []) (by decide) hparse
  exact (hnormal.1 output).mpr (by simp)

end Assuan
