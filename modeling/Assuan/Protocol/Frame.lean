import Assuan.Protocol.Encode

/-!
# Line framing (`assuan-protocol/src/frame.rs`)

§1 is `LineBuffer` as the source has it. §2 computes the buffer's state from the
bytes of the unfinished line alone (`holding`), and says what `feed` does in
that vocabulary. §3 is the reference splitter and §4 the driver loop of
`fuzz/fuzz_targets/wire.rs`, which is shown to give the reference's lines
whatever the chunks are.
-/

namespace Assuan

/-! ## §1  The buffer -/

structure LineBuffer : Type where
  storage : LineArray
  len : ℕ
  ready : Bool
  contentLen : ℕ
  failed : Bool
deriving DecidableEq

namespace LineBuffer

def new : LineBuffer := ⟨Buffer.zero _, 0, false, 0, false⟩

/-- Wipes the storage and resets every field. -/
def clear (_ : LineBuffer) : LineBuffer := new

/-- The body of `feed`'s loop from position `index` of the input on. -/
def feedLoop : LineBuffer → ℕ → Bytes → Outcome ProtocolError ℕ × LineBuffer
  | buffer, index, [] => (.ok index, buffer)
  | buffer, index, byte :: rest =>
      match buffer.storage.set buffer.len byte with
      | none => (.panic, buffer)
      | some storage =>
          let len := buffer.len + 1
          if byte = lf then
            let content := len - 1
            let content :=
              if content > 0 ∧ storage.get (content - 1) = some cr then content - 1 else content
            (.ok (index + 1), ⟨storage, len, true, content, buffer.failed⟩)
          else if len = maxLineBytes then
            (.err .lineTooLong, { buffer.clear with failed := true })
          else feedLoop ⟨storage, len, buffer.ready, buffer.contentLen, buffer.failed⟩
            (index + 1) rest

def feed (buffer : LineBuffer) (input : Bytes) : Outcome ProtocolError ℕ × LineBuffer :=
  if buffer.failed then (.err .lineTooLong, buffer)
  else if buffer.ready then (.ok 0, buffer)
  else feedLoop buffer 0 input

def line (buffer : LineBuffer) : Option Bytes :=
  if buffer.ready then some (buffer.storage.bytes.take buffer.contentLen) else none

/-- What a caller can do through `line_mut`: replace the bytes of the line, not
its length. -/
def editLine (buffer : LineBuffer) (content : Bytes) : LineBuffer :=
  if buffer.ready ∧ content.length = buffer.contentLen then
    { buffer with storage := (buffer.storage.copyAt 0 content).getD buffer.storage }
  else buffer

def finishEof (buffer : LineBuffer) : Outcome ProtocolError Unit :=
  if buffer.failed then .err .lineTooLong
  else if buffer.len ≠ 0 ∧ ¬ buffer.ready then .err .unexpectedEof
  else .ok ()

/-! ## §2  The state in terms of the bytes received -/

/-- A segment without its LF and without one CR directly before it. -/
def stripTerminator (seg : Bytes) : Bytes :=
  if seg.dropLast.getLast? = some cr then seg.dropLast.dropLast else seg.dropLast

/-- Collecting: the bytes of the unfinished line. -/
def holding (acc : Bytes) : LineBuffer := ⟨Buffer.pad _ acc, acc.length, false, 0, false⟩

/-- A finished line, with its terminator still in the storage. -/
def complete (seg : Bytes) : LineBuffer :=
  ⟨Buffer.pad _ seg, seg.length, true, (stripTerminator seg).length, false⟩

def overlong : LineBuffer := { new with failed := true }

theorem holding_nil : holding [] = new := by simp [holding, new]

theorem stripTerminator_snoc (body : Bytes) :
    stripTerminator (body ++ [lf]) = if body.getLast? = some cr then body.dropLast else body := by
  simp [stripTerminator]

theorem stripTerminator_eq_take (seg : Bytes) :
    stripTerminator seg = seg.take (stripTerminator seg).length := by
  have hpre : stripTerminator seg <+: seg := by
    unfold stripTerminator
    split
    · exact (List.dropLast_prefix _).trans (List.dropLast_prefix _)
    · exact List.dropLast_prefix _
  exact List.prefix_iff_eq_take.mp hpre

theorem line_complete {seg : Bytes} (h : seg.length ≤ maxLineBytes) :
    (complete seg).line = some (stripTerminator seg) := by
  have hlen : (stripTerminator seg).length ≤ seg.length := by
    rw [stripTerminator_eq_take]
    exact List.length_take_le' _ _
  rw [line, complete, if_pos rfl, Buffer.pad_bytes h, List.take_append_of_le_length hlen,
    ← stripTerminator_eq_take]

/-- The content length `feed` computes when the LF arrives. -/
theorem content_len {acc : Bytes} (h : acc.length < maxLineBytes) :
    (if acc.length > 0 ∧ (Buffer.pad maxLineBytes (acc ++ [lf])).get (acc.length - 1) = some cr
      then acc.length - 1 else acc.length) = (stripTerminator (acc ++ [lf])).length := by
  rw [stripTerminator_snoc]
  have hlen : (acc ++ [lf]).length ≤ maxLineBytes := by
    rw [List.length_append, List.length_singleton]
    omega
  by_cases hnil : acc = []
  · simp [hnil]
  · have hpos : acc.length > 0 := List.length_pos_of_ne_nil hnil
    have hget : (Buffer.pad maxLineBytes (acc ++ [lf])).get (acc.length - 1) =
        acc.getLast? := by
      rw [Buffer.get_pad (by rw [List.length_append]; omega) hlen,
        List.getElem_append_left (by omega), List.getLast?_eq_getElem?,
        List.getElem?_eq_getElem (by omega)]
    rw [hget]
    by_cases hcr : acc.getLast? = some cr
    · simp [hcr, hpos]
    · simp [hcr]

theorem feedLoop_holding {acc : Bytes} (index : ℕ) (input : Bytes)
    (h : acc.length < maxLineBytes) :
    feedLoop (holding acc) index input = match firstSegment lf input with
      | some (seg, _) =>
          if acc.length + seg.length ≤ maxLineBytes then
            (.ok (index + seg.length), complete (acc ++ seg))
          else (.err .lineTooLong, overlong)
      | none =>
          if acc.length + input.length < maxLineBytes then
            (.ok (index + input.length), holding (acc ++ input))
          else (.err .lineTooLong, overlong) := by
  induction input generalizing acc index with
  | nil => simp [feedLoop, firstSegment, h]
  | cons b rest ih =>
      have hstore : (holding acc).storage.set (holding acc).len b =
          some (Buffer.pad _ (acc ++ [b])) := Buffer.set_pad h
      rw [feedLoop, hstore, firstSegment]
      by_cases hb : b = lf
      · subst hb
        have hle : acc.length + 1 ≤ maxLineBytes := h
        simp only [if_true, List.length_singleton, hle]
        rw [complete, List.length_append, List.length_singleton, ← content_len h]
        rfl
      · simp only [hb, if_false]
        by_cases hmax : (holding acc).len + 1 = maxLineBytes
        · have hlen : acc.length + 1 = maxLineBytes := hmax
          simp only [hmax, if_true]
          cases hseg : firstSegment lf rest with
          | none =>
              simp only [Option.map_none, List.length_cons]
              rw [if_neg (by omega)]
              rfl
          | some p =>
              obtain ⟨⟨body, -, hp⟩, -⟩ := firstSegment_eq_some hseg
              simp only [Option.map_some, List.length_cons, hp, List.length_append,
                List.length_nil]
              rw [if_neg (by omega)]
              rfl
        · have hlt : (acc ++ [b]).length < maxLineBytes := by
            have : acc.length + 1 ≠ maxLineBytes := hmax
            rw [List.length_append, List.length_singleton]
            omega
          have hnext : (⟨Buffer.pad _ (acc ++ [b]), (holding acc).len + 1, (holding acc).ready,
              (holding acc).contentLen, (holding acc).failed⟩ : LineBuffer) =
              holding (acc ++ [b]) := by
            simp [holding]
          rw [if_neg hmax, hnext, ih (index + 1) hlt]
          cases hseg : firstSegment lf rest with
          | none => simp [Nat.add_assoc, Nat.add_comm 1]
          | some p => simp [Nat.add_assoc, Nat.add_comm 1]

/-- What `feed` does while a line is being collected. -/
theorem feed_holding {acc : Bytes} (input : Bytes) (h : acc.length < maxLineBytes) :
    (holding acc).feed input = match firstSegment lf input with
      | some (seg, _) =>
          if acc.length + seg.length ≤ maxLineBytes then
            (.ok seg.length, complete (acc ++ seg))
          else (.err .lineTooLong, overlong)
      | none =>
          if acc.length + input.length < maxLineBytes then
            (.ok input.length, holding (acc ++ input))
          else (.err .lineTooLong, overlong) := by
  show feedLoop (holding acc) 0 input = _
  rw [feedLoop_holding 0 input h]
  simp only [Nat.zero_add]

theorem finishEof_holding (acc : Bytes) :
    (holding acc).finishEof = if acc = [] then .ok () else .err .unexpectedEof := by
  cases acc <;> simp [finishEof, holding]

end LineBuffer

/-! ## §3  The reference splitter -/

/-- How a stream ends: on a line boundary, inside a line, or in a line that
cannot fit its terminator any more. -/
inductive Verdict : Type where
  | clean
  | incomplete
  | tooLong
deriving DecidableEq, Repr

/-- The lines of the segments up to the first one over the limit. -/
def classifySegments : List Bytes → Bytes → List Bytes × Verdict
  | [], tail =>
      ([], if maxLineBytes ≤ tail.length then .tooLong
        else if tail = [] then .clean else .incomplete)
  | seg :: segs, tail =>
      if seg.length ≤ maxLineBytes then
        (LineBuffer.stripTerminator seg :: (classifySegments segs tail).1,
          (classifySegments segs tail).2)
      else ([], .tooLong)

/-- The whole stream, cut after each LF. -/
def referenceLines (stream : Bytes) : List Bytes × Verdict :=
  classifySegments (splitAfter lf stream).1 (splitAfter lf stream).2

theorem referenceLines_of_none {stream : Bytes} (h : firstSegment lf stream = none) :
    referenceLines stream = ([], if maxLineBytes ≤ stream.length then .tooLong
      else if stream = [] then .clean else .incomplete) := by
  rw [referenceLines, splitAfter_of_none h]
  rfl

theorem referenceLines_of_some {stream seg rest : Bytes}
    (h : firstSegment lf stream = some (seg, rest)) :
    referenceLines stream = if seg.length ≤ maxLineBytes then
        (LineBuffer.stripTerminator seg :: (referenceLines rest).1, (referenceLines rest).2)
      else ([], .tooLong) := by
  rw [referenceLines, splitAfter_of_some h]
  rfl

/-- A segment that reaches the limit without an LF is too long whatever follows. -/
theorem referenceLines_tooLong {acc : Bytes} (later : Bytes) (hacc : lf ∉ acc)
    (hlen : maxLineBytes ≤ acc.length) : referenceLines (acc ++ later) = ([], .tooLong) := by
  have hnone := firstSegment_eq_none.mpr hacc
  cases hl : firstSegment lf later with
  | none =>
      have hall : firstSegment lf (acc ++ later) = none := by
        rw [firstSegment_append_of_none hnone, hl]
        rfl
      rw [referenceLines_of_none hall, if_pos (by rw [List.length_append]; omega)]
  | some p =>
      have hall : firstSegment lf (acc ++ later) = some (acc ++ p.1, p.2) := by
        rw [firstSegment_append_of_none hnone, hl]
        rfl
      obtain ⟨⟨body, -, hseg⟩, -⟩ := firstSegment_eq_some hl
      rw [referenceLines_of_some hall, if_neg]
      rw [List.length_append, hseg, List.length_append, List.length_singleton]
      omega

/-! ## §4  Driving the buffer -/

structure Framed : Type where
  lines : List Bytes
  outcome : Outcome ProtocolError Unit
  buffer : LineBuffer

/-- The inner loop of `framed`: feed the rest of the chunk, take a finished line
and clear. A feed that uses nothing, or more than it was given, is the failed
assertion `used > 0 && used <= chunk.len()`; the first argument bounds the
number of feeds. -/
def driveChunk : ℕ → LineBuffer → Bytes → Framed
  | _, buffer, [] => ⟨[], .ok (), buffer⟩
  | 0, buffer, _ :: _ => ⟨[], .panic, buffer⟩
  | fuel + 1, buffer, b :: rest =>
      match buffer.feed (b :: rest) with
      | (.ok used, buffer) =>
          if 0 < used ∧ used ≤ (b :: rest).length then
            match buffer.line with
            | some line =>
                let later := driveChunk fuel buffer.clear ((b :: rest).drop used)
                { later with lines := line :: later.lines }
            | none => driveChunk fuel buffer ((b :: rest).drop used)
          else ⟨[], .panic, buffer⟩
      | (.err e, buffer) => ⟨[], .err e, buffer⟩
      | (.panic, buffer) => ⟨[], .panic, buffer⟩
      | (.dropped, buffer) => ⟨[], .dropped, buffer⟩

/-- The outer loop: chunk after chunk until the framer fails. -/
def driveChunks : LineBuffer → List Bytes → Framed
  | buffer, [] => ⟨[], .ok (), buffer⟩
  | buffer, chunk :: chunks =>
      let first := driveChunk chunk.length buffer chunk
      match first.outcome with
      | .ok () =>
          let later := driveChunks first.buffer chunks
          { later with lines := first.lines ++ later.lines }
      | _ => first

/-- `framed`: a fresh buffer driven over the chunks of a stream. -/
def framed (chunks : List Bytes) : Framed := driveChunks .new chunks

open LineBuffer

section Feeding

variable {fuel : ℕ} {acc chunk seg tail : Bytes}

/-- The reference after a held prefix: the first terminator to come ends the first line. -/
theorem referenceLines_held (hacc : lf ∉ acc) (hseg : firstSegment lf chunk = some (seg, tail))
    (later : Bytes) : referenceLines (acc ++ chunk ++ later) =
      if (acc ++ seg).length ≤ maxLineBytes then
        (stripTerminator (acc ++ seg) :: (referenceLines (tail ++ later)).1,
          (referenceLines (tail ++ later)).2)
      else ([], .tooLong) := by
  obtain ⟨hterm, rfl⟩ := firstSegment_eq_some hseg
  apply referenceLines_of_some
  rw [List.append_assoc, List.append_assoc,
    firstSegment_append_of_none (firstSegment_eq_none.mpr hacc), hterm.firstSegment]
  rfl

/-- A chunk without a terminator is held whole, unless the line outgrows the limit. -/
theorem driveChunk_unfinished (hchunk : chunk ≠ []) (hlen : acc.length < maxLineBytes)
    (hseg : firstSegment lf chunk = none) : driveChunk (fuel + 1) (holding acc) chunk =
      if acc.length + chunk.length < maxLineBytes then ⟨[], .ok (), holding (acc ++ chunk)⟩
      else ⟨[], .err .lineTooLong, overlong⟩ := by
  obtain ⟨b, rest, rfl⟩ := List.exists_cons_of_ne_nil hchunk
  rw [driveChunk, feed_holding (b :: rest) hlen, hseg]
  simp only
  by_cases hfit : acc.length + (b :: rest).length < maxLineBytes
  · rw [if_pos hfit, if_pos hfit]
    simp [holding, line, driveChunk]
  · rw [if_neg hfit, if_neg hfit]

/-- A terminator ends the line, and the rest of the chunk meets an empty buffer. -/
theorem driveChunk_finished (hlen : acc.length < maxLineBytes)
    (hseg : firstSegment lf chunk = some (seg, tail)) :
    driveChunk (fuel + 1) (holding acc) chunk =
      if (acc ++ seg).length ≤ maxLineBytes then
        let later := driveChunk fuel (holding []) tail
        { later with lines := stripTerminator (acc ++ seg) :: later.lines }
      else ⟨[], .err .lineTooLong, overlong⟩ := by
  obtain ⟨⟨body, -, hbody⟩, hsplit⟩ := firstSegment_eq_some hseg
  have hpos : 0 < seg.length := by simp [hbody]
  have hused : seg.length ≤ chunk.length := by
    rw [hsplit, List.length_append]
    omega
  have hdrop : chunk.drop seg.length = tail := by rw [hsplit, List.drop_left]
  have hchunk : chunk ≠ [] := List.ne_nil_of_length_pos (Nat.lt_of_lt_of_le hpos hused)
  obtain ⟨b, rest, rfl⟩ := List.exists_cons_of_ne_nil hchunk
  rw [driveChunk, feed_holding (b :: rest) hlen, hseg, List.length_append]
  simp only
  by_cases hfit : acc.length + seg.length ≤ maxLineBytes
  · rw [if_pos hfit, if_pos hfit]
    have hfit' : (acc ++ seg).length ≤ maxLineBytes := by rwa [List.length_append]
    simp only [if_pos (And.intro hpos hused), line_complete hfit', hdrop, clear, ← holding_nil]
  · rw [if_neg hfit, if_neg hfit]

/-- One chunk, from a buffer that holds the unfinished line `acc`: either the
chunk is used up and the lines found are those the reference finds first, or
the line outgrew the limit. -/
theorem driveChunk_spec (hfuel : chunk.length ≤ fuel) (hacc : lf ∉ acc)
    (hlen : acc.length < maxLineBytes) :
    (∃ lines acc', driveChunk fuel (holding acc) chunk = ⟨lines, .ok (), holding acc'⟩ ∧
        lf ∉ acc' ∧ acc'.length < maxLineBytes ∧
        ∀ later, referenceLines (acc ++ chunk ++ later) =
          (lines ++ (referenceLines (acc' ++ later)).1, (referenceLines (acc' ++ later)).2)) ∨
      ∃ lines, driveChunk fuel (holding acc) chunk = ⟨lines, .err .lineTooLong, overlong⟩ ∧
        ∀ later, referenceLines (acc ++ chunk ++ later) = (lines, .tooLong) := by
  induction fuel generalizing acc chunk with
  | zero =>
      obtain rfl : chunk = [] := List.eq_nil_of_length_eq_zero (by omega)
      exact Or.inl ⟨[], acc, rfl, hacc, hlen, by simp⟩
  | succ fuel ih =>
      by_cases hchunk : chunk = []
      · subst hchunk
        exact Or.inl ⟨[], acc, rfl, hacc, hlen, by simp⟩
      cases hseg : firstSegment lf chunk with
      | none =>
          have hnew : lf ∉ acc ++ chunk := by
            rw [List.mem_append, not_or]
            exact ⟨hacc, firstSegment_eq_none.mp hseg⟩
          rw [driveChunk_unfinished hchunk hlen hseg]
          by_cases hfit : acc.length + chunk.length < maxLineBytes
          · left
            rw [if_pos hfit]
            exact ⟨[], acc ++ chunk, rfl, hnew, by simpa using hfit, by simp⟩
          · -- no terminator can come in time any more
            right
            rw [if_neg hfit]
            exact ⟨[], rfl, fun later => referenceLines_tooLong later hnew (by simpa using hfit)⟩
      | some p =>
          obtain ⟨seg, tail⟩ := p
          have hreference := referenceLines_held hacc hseg
          obtain ⟨⟨body, -, hbody⟩, hsplit⟩ := firstSegment_eq_some hseg
          rw [driveChunk_finished hlen hseg]
          by_cases hfit : (acc ++ seg).length ≤ maxLineBytes
          · have hfuel' : tail.length ≤ fuel := by
              rw [hsplit, hbody, List.length_append, List.length_append,
                List.length_singleton] at hfuel
              omega
            rw [if_pos hfit]
            rcases ih hfuel' (by simp) (show ([] : Bytes).length < _ by decide) with
              ⟨lines, acc', hrun, hacc', hlen', hlines⟩ | ⟨lines, hrun, hlines⟩
            · left
              refine ⟨stripTerminator (acc ++ seg) :: lines, acc', by rw [hrun], hacc', hlen', ?_⟩
              intro later
              rw [hreference later, if_pos hfit]
              simp only [List.nil_append] at hlines
              rw [hlines later]
              rfl
            · right
              refine ⟨stripTerminator (acc ++ seg) :: lines, by rw [hrun], ?_⟩
              intro later
              rw [hreference later, if_pos hfit]
              simp only [List.nil_append] at hlines
              rw [hlines later]
          · right
            rw [if_neg hfit]
            exact ⟨[], rfl, fun later => by rw [hreference later, if_neg hfit]⟩

end Feeding

theorem driveChunks_spec {acc : Bytes} (chunks : List Bytes) (hacc : lf ∉ acc)
    (hlen : acc.length < maxLineBytes) :
    (∃ lines acc', driveChunks (holding acc) chunks = ⟨lines, .ok (), holding acc'⟩ ∧
        lf ∉ acc' ∧ acc'.length < maxLineBytes ∧
        referenceLines (acc ++ chunks.flatten) =
          (lines, if acc' = [] then .clean else .incomplete)) ∨
      ∃ lines, driveChunks (holding acc) chunks = ⟨lines, .err .lineTooLong, overlong⟩ ∧
        referenceLines (acc ++ chunks.flatten) = (lines, .tooLong) := by
  induction chunks generalizing acc with
  | nil =>
      refine Or.inl ⟨[], acc, rfl, hacc, hlen, ?_⟩
      rw [List.flatten_nil, List.append_nil, referenceLines_of_none (firstSegment_eq_none.mpr hacc),
        if_neg (by omega)]
  | cons chunk chunks ih =>
      rw [driveChunks, List.flatten_cons, ← List.append_assoc]
      rcases driveChunk_spec (Nat.le_refl chunk.length) hacc hlen with
        ⟨lines, acc', hrun, hacc', hlen', hlines⟩ | ⟨lines, hrun, hlines⟩
      · rw [hrun, hlines]
        rcases ih hacc' hlen' with ⟨lines', acc'', hrun', hacc'', hlen'', hlines'⟩ |
          ⟨lines', hrun', hlines'⟩
        · refine Or.inl ⟨lines ++ lines', acc'', ?_, hacc'', hlen'', ?_⟩
          · simp only [hrun']
          · rw [hlines']
        · refine Or.inr ⟨lines ++ lines', ?_, ?_⟩
          · simp only [hrun']
          · rw [hlines']
      · rw [hrun, hlines]
        exact Or.inr ⟨lines, rfl, rfl⟩

/-- A stream that ends on a line boundary is framed into its lines. -/
theorem framed_clean {chunks lines : List Bytes}
    (h : referenceLines chunks.flatten = (lines, .clean)) :
    (framed chunks).lines = lines ∧ (framed chunks).outcome = .ok () ∧
      (framed chunks).buffer.finishEof = .ok () := by
  have hstart : framed chunks = driveChunks (holding []) chunks := by rw [holding_nil]; rfl
  rw [hstart]
  rcases driveChunks_spec chunks (by simp) (show ([] : Bytes).length < _ by decide) with
    ⟨lines', acc', hrun, -, -, hlines⟩ | ⟨lines', -, hlines⟩
  · rw [List.nil_append, h] at hlines
    obtain ⟨rfl, hverdict⟩ := Prod.mk.inj hlines
    by_cases hnil : acc' = []
    · rw [hrun, hnil]
      exact ⟨rfl, rfl, finishEof_holding []⟩
    · rw [if_neg hnil] at hverdict
      exact absurd hverdict (by simp)
  · rw [List.nil_append, h] at hlines
    exact absurd (Prod.mk.inj hlines).2 (by simp)

/-- **Framing does not depend on the chunks.** Driving a fresh buffer over any
chunks of a stream finds exactly the reference's lines; no feed of a nonempty
rest stalls (the driver's assertion never fails); the framer fails exactly when
the reference does, and then every feed and `finish_eof` fail until `clear`;
otherwise `finish_eof` succeeds exactly on a line boundary. -/
theorem framed_eq_reference (chunks : List Bytes) :
    (framed chunks).lines = (referenceLines chunks.flatten).1 ∧
      match (referenceLines chunks.flatten).2 with
      | .clean =>
          (framed chunks).outcome = .ok () ∧ (framed chunks).buffer.finishEof = .ok ()
      | .incomplete =>
          (framed chunks).outcome = .ok () ∧
            (framed chunks).buffer.finishEof = .err .unexpectedEof
      | .tooLong =>
          (framed chunks).outcome = .err .lineTooLong ∧
            (framed chunks).buffer.finishEof = .err .lineTooLong ∧
            (∀ input, (framed chunks).buffer.feed input =
              (.err .lineTooLong, (framed chunks).buffer)) ∧
            (framed chunks).buffer.clear = .new := by
  have hstart : framed chunks = driveChunks (holding []) chunks := by rw [holding_nil]; rfl
  rw [hstart]
  rcases driveChunks_spec chunks (by simp) (show ([] : Bytes).length < _ by decide) with
    ⟨lines, acc', hrun, -, -, hlines⟩ | ⟨lines, hrun, hlines⟩
  · rw [List.nil_append] at hlines
    rw [hrun, hlines]
    refine ⟨rfl, ?_⟩
    by_cases hnil : acc' = []
    · simp [hnil, finishEof_holding]
    · simp [hnil, finishEof_holding]
  · rw [List.nil_append] at hlines
    rw [hrun, hlines]
    exact ⟨rfl, rfl, rfl, fun _ => rfl, rfl⟩

end Assuan
