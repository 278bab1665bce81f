import Assuan.Protocol.Streaming
import Assuan.Server.Registry

/-!
# Request lines and what the client meant (`assuan-server/src/inquiry.rs`)

`request_kind` looks at prefixes and whole lines; the encoders and `Command::parse`
say elsewhere what these lines are. Here the classes are put in the encoders' terms.
-/

namespace Assuan

/-! ## §1 The classes -/

/-- What a classified line looks like. -/
inductive RequestForm : Bytes → RequestKind → Prop where
  | empty : RequestForm [] .empty
  | comment (text : Bytes) : RequestForm (asBytes "#" ++ text) .comment
  | data (payload : Bytes) : RequestForm (asBytes "D " ++ payload) .data
  | end_ : RequestForm (asBytes "END") .end_
  | can : RequestForm (asBytes "CAN") .can
  | command {line : Bytes} {command : Command} (parsed : Command.parse line = .ok command)
      (name : command.name ∉ protocolNames) : RequestForm line .command

theorem startsWith_iff {tag line : Bytes} : startsWith tag line = true ↔ ∃ rest, line = tag ++ rest := by
  rw [startsWith, Option.isSome_iff_exists]
  exact exists_congr fun rest => stripPrefix_eq_some

theorem requestKind_form {line : Bytes} {kind : RequestKind}
    (h : requestKind line = .ok kind) : isCleanLine line = true ∧ RequestForm line kind := by
  unfold requestKind at h
  split at h
  · exact absurd h (by simp)
  next hclean =>
  refine ⟨by simpa [isCleanLine] using hclean, ?_⟩
  split at h
  · next hline => exact hline ▸ Outcome.ok.inj h ▸ .empty
  split at h
  · next hhash =>
      obtain ⟨text, rfl⟩ := startsWith_iff.mp hhash
      exact Outcome.ok.inj h ▸ .comment text
  split at h
  · next hdata =>
      obtain ⟨payload, rfl⟩ := startsWith_iff.mp hdata
      exact Outcome.ok.inj h ▸ .data payload
  split at h
  · next hline => exact hline ▸ Outcome.ok.inj h ▸ .end_
  split at h
  · next hline => exact hline ▸ Outcome.ok.inj h ▸ .can
  · obtain ⟨command, hparse, h⟩ := Outcome.bind_eq_ok.mp h
    split at h
    · exact absurd h (by simp)
    · next hname => exact Outcome.ok.inj h ▸ .command hparse hname

theorem Command.parse_cases (line : Bytes) :
    (∃ command, Command.parse line = .ok command) ∨ ∃ e, Command.parse line = .err e := by
  unfold Command.parse
  split
  · split
    · split
      · exact Or.inl ⟨_, rfl⟩
      · exact Or.inr ⟨_, rfl⟩
    · exact Or.inr ⟨_, rfl⟩
  · exact Or.inr ⟨_, rfl⟩

/-- A line is classified or refused. -/
theorem requestKind_cases (line : Bytes) :
    (∃ kind, requestKind line = .ok kind) ∨ ∃ e, requestKind line = .err e := by
  unfold requestKind
  split
  · exact Or.inr ⟨_, rfl⟩
  split
  · exact Or.inl ⟨_, rfl⟩
  split
  · exact Or.inl ⟨_, rfl⟩
  split
  · exact Or.inl ⟨_, rfl⟩
  split
  · exact Or.inl ⟨_, rfl⟩
  split
  · exact Or.inl ⟨_, rfl⟩
  · rcases Command.parse_cases line with ⟨command, hparse⟩ | ⟨e, hparse⟩
    · rw [hparse, Outcome.ok_bind]
      split
      · exact Or.inr ⟨_, rfl⟩
      · exact Or.inl ⟨_, rfl⟩
    · rw [hparse]
      exact Or.inr ⟨e, rfl⟩

/-- The slice `line[2..]` of `next` is in range. -/
theorem length_of_data {line : Bytes} (h : requestKind line = .ok .data) : 2 ≤ line.length := by
  obtain ⟨-, hclass⟩ := requestKind_form h
  cases hclass with
  | data payload => simp [asBytes_dataSep]

/-! ## §2 Lines of the client -/

theorem requestKind_dataBody (piece : Bytes) :
    requestKind (asBytes "D " ++ escapeBytes piece) = .ok .data := by
  have hforbidden : (asBytes "D " ++ escapeBytes piece).any isForbidden = false := by
    simpa [isCleanLine] using dataLine_body_clean piece
  have hdata : startsWith (asBytes "D ") (asBytes "D " ++ escapeBytes piece) = true :=
    startsWith_iff.mpr ⟨_, rfl⟩
  have hhash : startsWith (asBytes "#") (asBytes "D " ++ escapeBytes piece) = false := rfl
  rw [requestKind, hforbidden, if_neg (by simp), if_neg (by simp [asBytes_dataSep]), hhash,
    if_neg (by simp), if_pos hdata]

/-- A first token of the protocol's own makes no command. -/
theorem requestKind_ne_command {line : Bytes}
    (h : ∃ word ∈ protocolNames, (splitField line).1 = asBytes word) :
    requestKind line ≠ .ok .command := by
  obtain ⟨word, hword, hfirst⟩ := h
  intro hkind
  obtain ⟨-, hclass⟩ := requestKind_form hkind
  cases hclass with
  | command hparse hname =>
      have hsplit := (Command.parse_eq_ok.mp hparse).2
      rw [hsplit] at hfirst
      exact hname (asBytes_injective hfirst ▸ hword)

/-- A line that starts like inquiry traffic and is none is refused. -/
theorem requestKind_reserved {line : Bytes}
    (h : ∃ word ∈ protocolNames, (splitField line).1 = asBytes word)
    (hend : line ≠ asBytes "END") (hcan : line ≠ asBytes "CAN")
    (hdata : ¬ asBytes "D " <+: line) : ∃ e, requestKind line = .err e := by
  rcases requestKind_cases line with ⟨kind, hkind⟩ | hrefused
  · exfalso
    have hcommand := requestKind_ne_command h
    obtain ⟨word, hword, hfirst⟩ := h
    obtain ⟨-, hclass⟩ := requestKind_form hkind
    cases hclass with
    | end_ => exact hend rfl
    | can => exact hcan rfl
    | data payload => exact hdata (List.prefix_append _ _)
    | command => exact hcommand hkind
    | empty =>
        have hnil : asBytes word = [] := hfirst.symm
        simp only [protocolNames, List.mem_cons, List.not_mem_nil, or_false] at hword
        rcases hword with rfl | rfl | rfl <;> exact absurd hnil (by decide)
    | comment text =>
        -- the first token of a comment starts with `#`, or is `#` itself
        have hhead : (splitField (asBytes "#" ++ text)).1.head? = some 35 := by
          rcases splitField_spec (asBytes "#" ++ text) with ⟨-, hall⟩ | hall
          · rw [← hall]
            rfl
          · cases hsplit : (splitField (asBytes "#" ++ text)).1 with
            | nil =>
                rw [hsplit] at hall
                exact absurd (congrArg List.head? hall) (by simp [asBytes_hash, space])
            | cons b rest =>
                rw [hsplit] at hall
                exact (congrArg List.head? hall).symm
        rw [hfirst] at hhead
        simp only [protocolNames, List.mem_cons, List.not_mem_nil, or_false] at hword
        rcases hword with rfl | rfl | rfl <;> exact absurd hhead (by decide)
  · exact hrefused

/-- A written line, cut in any way, is framed as the one line it is. -/
theorem framed_written {body : Bytes} (hclean : isCleanLine body = true)
    (hlen : body.length + 1 ≤ maxLineBytes) {chunks : List Bytes}
    (h : chunks.flatten = body ++ [lf]) : (framed chunks).lines = [body] := by
  have hone := @referenceLines_clean [body] (by simpa using ⟨hclean, hlen⟩)
  rw [List.map_singleton, List.flatten_singleton, ← h] at hone
  exact (framed_clean hone).1

/-! ## §3 The classifier and the encoders -/

/-- **Requests are classified as they were meant.** A command whose name is none of
the protocol's own arrives as that command, a data chunk as data, `END` and `CAN` as
themselves. Of any line at all: a command parses, data has its two-byte tag, and what
only starts like inquiry traffic is refused. -/
theorem classification_agrees :
    (∀ name args command, Command.new name args = .ok command →
      name ≠ "D" → name ≠ "END" → name ≠ "CAN" →
      ∀ (output : LineArray) n out, encodeCommand command output = (.ok n, out) →
      ∀ chunks : List Bytes, chunks.flatten = out.bytes.take n →
      ∃ line, (framed chunks).lines = [line] ∧ requestKind line = .ok .command ∧
        ∃ parsed, Command.parse line = .ok parsed ∧ parsed.name = name ∧ parsed.args = args) ∧
    (∀ payload (output : LineArray) consumed written out,
      encodeDataChunk payload output = (.ok (consumed, written), out) →
      ∀ chunks : List Bytes, chunks.flatten = out.bytes.take written →
      ∃ line, (framed chunks).lines = [line] ∧ requestKind line = .ok .data) ∧
    (requestKind (asBytes "END") = .ok .end_ ∧ requestKind (asBytes "CAN") = .ok .can) ∧
    (∀ line, requestKind line = .ok .command → ∃ command, Command.parse line = .ok command) ∧
    (∀ line, requestKind line = .ok .data → 2 ≤ line.length) ∧
    (∀ line, (splitField line).1 = asBytes "END" ∨ (splitField line).1 = asBytes "CAN" ∨
        (splitField line).1 = asBytes "D" →
      line ≠ asBytes "END" → line ≠ asBytes "CAN" → ¬ asBytes "D " <+: line →
      ∃ e, requestKind line = .err e) := by
  refine ⟨?_, ?_, ⟨rfl, rfl⟩, ?_, fun line => length_of_data, ?_⟩
  · intro name args command hnew hd hend hcan output n out hrun chunks hchunks
    obtain ⟨rfl, rfl⟩ := Command.new_eq_ok.mp hnew
    rcases encodeCommand_writesLine command output with
      ⟨out', hout, -, hclean, hlen, hw⟩ | ⟨⟨e, he⟩, -⟩
    · obtain ⟨hn, rfl⟩ := Prod.mk.inj (hrun.symm.trans hout)
      have htake := hw.take
      rw [List.length_append, List.length_singleton] at htake
      rw [Outcome.ok.inj hn, htake] at hchunks
      refine ⟨commandBody command, framed_written hclean hlen hchunks, ?_, command,
        parse_commandBody command, rfl, rfl⟩
      rw [requestKind_commandBody]
      simp [protocolNames, hd, hend, hcan]
    · exact absurd (congrArg Prod.fst (hrun.symm.trans he)) (by simp)
  · intro payload output consumed written out hrun chunks hchunks
    obtain ⟨out', hout, hlen, hw⟩ := encodeDataChunk_spec payload output
    obtain ⟨hn, rfl⟩ := Prod.mk.inj (hrun.symm.trans hout)
    obtain ⟨-, rfl⟩ := Prod.mk.inj (Outcome.ok.inj hn)
    have htake := hw.take
    rw [List.length_append, List.length_singleton] at htake
    rw [htake] at hchunks
    exact ⟨chunkBody payload, framed_written (dataLine_body_clean _) hlen hchunks,
      requestKind_dataBody _⟩
  · intro line hkind
    obtain ⟨-, hclass⟩ := requestKind_form hkind
    cases hclass with
    | command hparse => exact ⟨_, hparse⟩
  · intro line hfirst
    apply requestKind_reserved
    rcases hfirst with h | h | h
    · exact ⟨"END", by decide, h⟩
    · exact ⟨"CAN", by decide, h⟩
    · exact ⟨"D", by decide, h⟩

end Assuan
