import Assuan.Foundation.Action
import Assuan.Protocol.RoundTrip

/-!
# Encoding into a wiped array, and streaming data

Both ends encode a line into a fresh array of zeros and send the written part
of it. Payloads are cut into as many `D` lines as they need by a loop around
`encode_data_chunk`, which `CommandContext::send_data` and `Inquiry::send` have
in common; what they write to is a parameter here.
-/

namespace Assuan

/-! ## Classified payloads (`assuan-protocol/src/secret.rs`) -/

inductive Sensitivity : Type where
  | public_
  | secret
deriving DecidableEq, Repr

inductive PayloadRef : Type where
  | public_ (bytes : Bytes)
  | secret (bytes : Bytes)
deriving DecidableEq, Repr

/-- `payload` of the client, and the `match` at the end of `next` of the server. -/
def PayloadRef.new (bytes : Bytes) : Sensitivity → PayloadRef
  | .public_ => .public_ bytes
  | .secret => .secret bytes

def PayloadRef.bytes : PayloadRef → Bytes
  | .public_ bytes => bytes
  | .secret bytes => bytes

/-! ## Encoding and streaming -/

/-- `let len = encode(&mut output)?` with a wiped `output`, then `&output[..len]`. -/
def encoded (encoder : LineArray → Outcome ProtocolError ℕ × LineArray) :
    Outcome ProtocolError Bytes :=
  match encoder (Buffer.zero _) with
  | (.ok len, output) => Outcome.index (output.slice 0 len)
  | (.err e, _) => .err e
  | (.panic, _) => .panic
  | (.dropped, _) => .dropped

/-- `encode_data_chunk` into a wiped array: the bytes consumed and the line. -/
def dataChunk (input : Bytes) : Outcome ProtocolError (ℕ × Bytes) :=
  match encodeDataChunk input (Buffer.zero _) with
  | (.ok (consumed, written), output) => do
      let line ← Outcome.index (output.slice 0 written)
      .ok (consumed, line)
  | (.err e, _) => .err e
  | (.panic, _) => .panic
  | (.dropped, _) => .dropped

section Loop

variable {σ ε : Type} (write : Bytes → Action σ ε Unit) (wrap : ProtocolError → ε)

/-- The `loop` of `send_data` and `send`. The first argument bounds the rounds;
each of them consumes a byte, so the length of the payload is enough. -/
def streamData : ℕ → Bytes → Action σ ε Unit
  | 0, _ => Action.lift .panic
  | fuel + 1, rest => do
      let (consumed, line) ← Action.lift ((dataChunk rest).mapErr wrap)
      write line
      let rest ← Action.lift
        (Outcome.index (if consumed ≤ rest.length then some (rest.drop consumed) else none))
      if rest = [] then pure () else streamData fuel rest

end Loop

/-! ## What is sent -/

theorem slice_wrote {line : Bytes} {output out : LineArray} (h : Wrote line output out) :
    out.slice 0 line.length = some line := by
  have hlen : line.length ≤ maxLineBytes := by
    have hsize := congrArg List.length h
    rw [List.length_append, out.size] at hsize
    omega
  rw [Buffer.slice, if_pos ⟨Nat.zero_le _, hlen⟩, h.take, List.drop_zero]

/-- An encoder that writes lines sends one whole line or fails. -/
theorem encoded_cases {body : Bytes} {valid : Prop}
    {encoder : LineArray → Outcome ProtocolError ℕ × LineArray}
    (h : WritesLine body valid (Buffer.zero _) (encoder (Buffer.zero _))) :
    (encoded encoder = .ok (body ++ [lf]) ∧ valid ∧ isCleanLine body = true ∧
      body.length + 1 ≤ maxLineBytes) ∨
    (∃ e, encoded encoder = .err e) ∧
      ¬ (valid ∧ isCleanLine body = true ∧ body.length + 1 ≤ maxLineBytes) := by
  unfold encoded
  rcases h with ⟨out, hrun, hvalid, hclean, hlen, hw⟩ | ⟨⟨e, hrun⟩, hnot⟩
  · refine Or.inl ⟨?_, hvalid, hclean, hlen⟩
    have hslice := slice_wrote hw
    rw [List.length_append, List.length_singleton] at hslice
    simp only [hrun, hslice, Outcome.index_some]
  · refine Or.inr ⟨⟨e, ?_⟩, hnot⟩
    rw [hrun]

theorem encoded_command_err {command : Command} {e : ProtocolError}
    (h : encoded (encodeCommand command) = .err e) : e = .lineTooLong := by
  unfold encoded at h
  split at h
  · next len output hrun =>
      cases hslice : output.slice 0 len with
      | none =>
          rw [hslice] at h
          exact absurd h (by simp)
      | some line =>
          rw [hslice] at h
          exact absurd h (by simp)
  · next e' output hrun =>
      obtain rfl : e' = e := Outcome.err.inj h
      exact encodeCommand_err (congrArg Prod.fst hrun)
  · exact absurd h (by simp)
  · exact absurd h (by simp)

theorem dataChunk_eq (input : Bytes) :
    dataChunk input = .ok (chunkFit 2 input, chunkBody input ++ [lf]) := by
  obtain ⟨out, hrun, -, hw⟩ := encodeDataChunk_spec input (Buffer.zero _)
  have hslice := slice_wrote hw
  rw [List.length_append, List.length_singleton] at hslice
  simp only [dataChunk, hrun, hslice, Outcome.index_some, Outcome.ok_bind]

/-! ## The pieces of a payload -/

/-- The payload of each `D` line: as much as fits, one line even when empty. -/
def piecesFrom : ℕ → Bytes → List Bytes
  | 0, _ => []
  | fuel + 1, rest =>
      rest.take (chunkFit 2 rest) ::
        if rest.drop (chunkFit 2 rest) = [] then []
        else piecesFrom fuel (rest.drop (chunkFit 2 rest))

def pieces (data : Bytes) : List Bytes := piecesFrom (data.length + 1) data

/-- The line that carries one piece. -/
def dataLine (piece : Bytes) : Bytes := asBytes "D " ++ escapeBytes piece ++ [lf]

/-- What is left after one line is shorter. -/
theorem drop_chunkFit_lt {rest : Bytes} (h : rest.drop (chunkFit 2 rest) ≠ []) :
    (rest.drop (chunkFit 2 rest)).length < rest.length := by
  have hne : rest ≠ [] := by
    rintro rfl
    exact h rfl
  have hpos := chunkFit_pos hne
  have hle := chunkFit_le 2 rest
  rw [List.length_drop]
  omega

theorem piecesFrom_flatten {fuel : ℕ} {rest : Bytes} (h : rest.length < fuel) :
    (piecesFrom fuel rest).flatten = rest := by
  induction fuel generalizing rest with
  | zero => omega
  | succ fuel ih =>
      rw [piecesFrom, List.flatten_cons]
      by_cases hnil : rest.drop (chunkFit 2 rest) = []
      · rw [if_pos hnil, List.flatten_nil, List.append_nil]
        exact List.take_of_length_le (List.drop_eq_nil_iff.mp hnil)
      · have hlt := drop_chunkFit_lt hnil
        rw [if_neg hnil, ih (by omega), List.take_append_drop]

theorem pieces_flatten (data : Bytes) : (pieces data).flatten = data :=
  piecesFrom_flatten (Nat.lt_succ_self _)

theorem pieces_nil : pieces [] = [[]] := rfl

theorem pieces_ne_nil (data : Bytes) : pieces data ≠ [] := by
  rw [pieces, piecesFrom]
  simp

/-- Every line of a payload fits. -/
theorem dataLine_length {fuel : ℕ} {rest piece : Bytes} (h : piece ∈ piecesFrom fuel rest) :
    (dataLine piece).length ≤ maxLineBytes := by
  induction fuel generalizing rest with
  | zero => exact absurd h (by simp [piecesFrom])
  | succ fuel ih =>
      rw [piecesFrom, List.mem_cons] at h
      rcases h with rfl | h
      · have hbound := chunkFit_bound rest (show 2 < maxLineBytes by decide)
        have htag : (asBytes "D ").length = 2 := rfl
        rw [dataLine, List.length_append, List.length_append, htag, List.length_singleton]
        omega
      · split at h
        · exact absurd h (by simp)
        · exact ih h

theorem dataLine_body_clean (piece : Bytes) :
    isCleanLine (asBytes "D " ++ escapeBytes piece) = true := by
  rw [isCleanLine_append, escapeBytes_clean]
  decide

section Loop

variable {σ ε : Type} {write : Bytes → Action σ ε Unit} {wrap : ProtocolError → ε}

theorem streamData_eq_forEach {fuel : ℕ} {rest : Bytes} (h : rest.length < fuel) :
    streamData write wrap fuel rest = Action.forEach write ((piecesFrom fuel rest).map dataLine) := by
  induction fuel generalizing rest with
  | zero => omega
  | succ fuel ih =>
      have hline : chunkBody rest ++ [lf] = dataLine (rest.take (chunkFit 2 rest)) := rfl
      rw [streamData, dataChunk_eq, Outcome.mapErr_ok, Action.lift_ok_bind, piecesFrom,
        List.map_cons, Action.forEach]
      simp only [if_pos (chunkFit_le 2 rest), hline]
      congr 1
      funext _
      rw [Outcome.index_some, Action.lift_ok_bind]
      by_cases hnil : rest.drop (chunkFit 2 rest) = []
      · rw [if_pos hnil, if_pos hnil]
        rfl
      · have hlt := drop_chunkFit_lt hnil
        rw [if_neg hnil, if_neg hnil, ih (by omega)]

/-- The loop writes the lines of the payload, one after the other. -/
theorem streamData_eq (data : Bytes) :
    streamData write wrap (data.length + 1) data =
      Action.forEach write ((pieces data).map dataLine) :=
  streamData_eq_forEach (Nat.lt_succ_self _)

end Loop

end Assuan
