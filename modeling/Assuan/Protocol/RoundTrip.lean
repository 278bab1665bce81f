import Assuan.Protocol.Escape
import Assuan.Protocol.Frame

/-!
# Response streams round-trip

`encode_response`, `LineBuffer` and `parse_server_line` are three independent
pieces of code. Here they are put in a row: whatever list of responses the
encoder accepts, concatenated and cut into chunks in any way, comes back from
the framer and the parser as the same list.
-/

namespace Assuan

open LineBuffer

/-! ## One line -/

theorem asBytes_okSep_eq (text : Bytes) :
    asBytes "OK" ++ space :: text = asBytes "OK " ++ text := rfl

/-- The parser inverts the encoder's text. -/
theorem parseServerLine_responseBody {line : ServerLine} (hv : FieldsValid line)
    (hc : isCleanLine (responseBody line) = true) :
    parseServerLine (responseBody line) = .ok line := by
  have hvalid := validateLine_eq_ok.mpr hc
  cases line with
  | ok text =>
      by_cases ht : text = []
      · subst ht
        rfl
      · rw [responseBody, optionalField, if_neg ht, asBytes_okSep_eq] at hvalid ⊢
        rw [(parseServerLine_tagged text).2.1, hvalid, Outcome.ok_bind]
  | err code text =>
      rw [responseBody, List.append_assoc] at hvalid ⊢
      rw [(parseServerLine_tagged _).2.2.1, hvalid, Outcome.ok_bind, parseErr]
      have hsplit : splitField (decimal code.toNat ++ optionalField text) =
          (decimal code.toNat, text) := by
        unfold optionalField
        split
        · next h =>
            rw [h, List.append_nil, splitField_of_not_mem (decimal_no_space _)]
        · rw [splitField_append (decimal_no_space _)]
      simp [hsplit, decimal_ne_nil, parseCode_decimal]
  | data data =>
      rw [responseBody] at hvalid ⊢
      rw [(parseServerLine_tagged data).2.2.2.1, hvalid, Outcome.ok_bind]
  | status keyword args =>
      rw [responseBody, List.append_assoc] at hvalid ⊢
      rw [(parseServerLine_tagged _).2.2.2.2.1, hvalid, Outcome.ok_bind, optionalField]
      split
      · next h => rw [h, List.append_nil, parseKeyword_keyword hv]; rfl
      · rw [parseKeyword_args args hv]; rfl
  | inquire keyword args =>
      rw [responseBody, List.append_assoc] at hvalid ⊢
      rw [(parseServerLine_tagged _).2.2.2.2.2, hvalid, Outcome.ok_bind, optionalField]
      split
      · next h => rw [h, List.append_nil, parseKeyword_keyword hv]; rfl
      · rw [parseKeyword_args args hv]; rfl
  | end_ => rfl
  | comment text =>
      rw [responseBody] at hvalid ⊢
      rw [(parseServerLine_tagged text).1, hvalid, Outcome.ok_bind]
  | empty => rfl

/-- A line without forbidden bytes, with its LF, is one segment. -/
theorem terminated_of_clean {body : Bytes} (h : isCleanLine body = true) :
    Terminated lf (body ++ [lf]) :=
  ⟨body, fun hmem => (isCleanLine_iff.mp h lf hmem).2.2 rfl, rfl⟩

/-- Framing a clean line removes the LF and nothing else. -/
theorem stripTerminator_clean {body : Bytes} (h : isCleanLine body = true) :
    stripTerminator (body ++ [lf]) = body := by
  rw [stripTerminator_snoc, if_neg]
  intro hlast
  exact (isCleanLine_iff.mp h cr (List.mem_of_getLast? hlast)).2.1 rfl

/-- The prefix an accepting call of `encode_response` wrote for `line`. -/
def EncodedAs (line : ServerLine) (written : Bytes) : Prop :=
  ∃ output n out, encodeResponse line output = (.ok n, out) ∧ written = out.bytes.take n

theorem EncodedAs.body {line : ServerLine} {written : Bytes} (h : EncodedAs line written) :
    written = responseBody line ++ [lf] ∧ FieldsValid line ∧
      isCleanLine (responseBody line) = true ∧ (responseBody line).length + 1 ≤ maxLineBytes := by
  obtain ⟨output, n, out, hrun, rfl⟩ := h
  rcases encodeResponse_writesLine line output with ⟨out', hout, hv, hc, hle, hw⟩ | ⟨⟨e, he⟩, -⟩
  · rw [hrun] at hout
    obtain ⟨hn, rfl⟩ := Prod.mk.inj hout
    refine ⟨?_, hv, hc, hle⟩
    have htake := hw.take
    rw [List.length_append, List.length_singleton] at htake
    rw [Outcome.ok.inj hn, htake]
  · rw [hrun] at he
    exact absurd (congrArg Prod.fst he) (by simp)

theorem encodedAs_body {line : ServerLine} (hv : FieldsValid line)
    (hc : isCleanLine (responseBody line) = true)
    (hle : (responseBody line).length + 1 ≤ maxLineBytes) :
    EncodedAs line (responseBody line ++ [lf]) := by
  rcases encodeResponse_writesLine line (Buffer.zero _) with ⟨out, hout, -, -, -, hw⟩ | ⟨-, hno⟩
  · refine ⟨_, _, out, hout, ?_⟩
    have htake := hw.take
    rw [List.length_append, List.length_singleton] at htake
    exact htake.symm
  · exact absurd ⟨hv, hc, hle⟩ hno

/-! ## Whole streams -/

/-- Cutting a concatenation of clean lines gives the lines back. -/
theorem referenceLines_clean {bodies : List Bytes}
    (h : ∀ body ∈ bodies, isCleanLine body = true ∧ body.length + 1 ≤ maxLineBytes) :
    referenceLines (bodies.map (· ++ [lf])).flatten = (bodies, .clean) := by
  induction bodies with
  | nil => rfl
  | cons body bodies ih =>
      obtain ⟨hc, hle⟩ := h body List.mem_cons_self
      have hcut : firstSegment lf (((body :: bodies).map (· ++ [lf])).flatten) =
          some (body ++ [lf], (bodies.map (· ++ [lf])).flatten) :=
        (terminated_of_clean hc).firstSegment _
      rw [referenceLines_of_some hcut, if_pos (by simpa using hle), stripTerminator_clean hc,
        ih fun b hb => h b (List.mem_cons_of_mem _ hb)]

/-- **Response streams round-trip, with no injection.** Take any list of
responses, each accepted by `encode_response`, and cut the concatenation of the
written lines in any way. The framer reports no error, the stream ends on a line
boundary, and parsing the framed lines gives exactly the list. An encoder that
rejects its value leaves the array unchanged, and one that accepts it leaves the
bytes beyond the returned length unchanged. -/
theorem response_stream_roundtrip (items : List (ServerLine × Bytes)) (chunks : List Bytes)
    (hitems : ∀ p ∈ items, EncodedAs p.1 p.2)
    (hchunks : chunks.flatten = (items.map Prod.snd).flatten) :
    ((framed chunks).outcome = .ok () ∧ (framed chunks).buffer.finishEof = .ok () ∧
      (framed chunks).lines.map parseServerLine = items.map fun p => .ok p.1) ∧
    (∀ line output, match encodeResponse line output with
      | (.ok n, out) => n ≤ maxLineBytes ∧ out.bytes.drop n = output.bytes.drop n
      | (result, out) => (∃ e, result = .err e) ∧ out = output) ∧
    (∀ command output, match encodeCommand command output with
      | (.ok n, out) => n ≤ maxLineBytes ∧ out.bytes.drop n = output.bytes.drop n
      | (result, out) => (∃ e, result = .err e) ∧ out = output) := by
  have hframe : ∀ {body : Bytes} {valid : Prop} {output : LineArray}
      {result : Outcome ProtocolError ℕ × LineArray}, WritesLine body valid output result →
      match result with
      | (.ok n, out) => n ≤ maxLineBytes ∧ out.bytes.drop n = output.bytes.drop n
      | (result, out) => (∃ e, result = .err e) ∧ out = output := by
    rintro body valid output result (⟨out, rfl, -, -, hle, hw⟩ | ⟨⟨e, rfl⟩, -⟩)
    · have hdrop := hw.drop
      rw [List.length_append, List.length_singleton] at hdrop
      exact ⟨hle, hdrop⟩
    · exact ⟨⟨e, rfl⟩, rfl⟩
  refine ⟨?_, fun line output => hframe (encodeResponse_writesLine line output),
    fun command output => hframe (encodeCommand_writesLine command output)⟩
  have hbodies : items.map Prod.snd = (items.map fun p => responseBody p.1).map (· ++ [lf]) := by
    rw [List.map_map]
    exact List.map_congr_left fun p hp => (hitems p hp).body.1
  have hclean : ∀ body ∈ items.map fun p => responseBody p.1,
      isCleanLine body = true ∧ body.length + 1 ≤ maxLineBytes := by
    intro body hb
    obtain ⟨p, hp, rfl⟩ := List.mem_map.mp hb
    exact (hitems p hp).body.2.2
  have href := referenceLines_clean hclean
  rw [← hbodies, ← hchunks] at href
  obtain ⟨hlines, hout, heof⟩ := framed_clean href
  refine ⟨hout, heof, ?_⟩
  rw [hlines, List.map_map]
  refine List.map_congr_left fun p hp => ?_
  obtain ⟨-, hv, hc, -⟩ := (hitems p hp).body
  exact parseServerLine_responseBody hv hc

/-- A status line and a final `ERR`, cut inside both of them. -/
theorem response_stream_roundtrip_status_err :
    EncodedAs (.status "PROGRESS" (asBytes "a b")) (asBytes "S PROGRESS a b\n") ∧
    EncodedAs (.err 175 []) (asBytes "ERR 175\n") ∧
    (framed [asBytes "S PROG", asBytes "RESS a b\nERR 1", asBytes "75\n"]).lines.map
        parseServerLine = [.ok (.status "PROGRESS" (asBytes "a b")), .ok (.err 175 [])] := by
  have hstatus : EncodedAs (.status "PROGRESS" (asBytes "a b")) (asBytes "S PROGRESS a b\n") :=
    encodedAs_body ⟨by decide, by decide⟩ (by decide) (by decide)
  have herr : EncodedAs (.err 175 []) (asBytes "ERR 175\n") :=
    encodedAs_body trivial (by decide) (by decide)
  refine ⟨hstatus, herr, ?_⟩
  exact (response_stream_roundtrip
    [(.status "PROGRESS" (asBytes "a b"), asBytes "S PROGRESS a b\n"),
      (.err 175 [], asBytes "ERR 175\n")] _
    (by simp [hstatus, herr]) (by decide)).1.2.2

end Assuan
