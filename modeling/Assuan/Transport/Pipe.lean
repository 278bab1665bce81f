import Assuan.Transport.ChannelSpec

/-!
# Two channels as a line pipe

What one channel writes, cut into reads in any way, the other reads back line
by line. The writer's checks and the reader's framer are separate code; they
meet at the 1000-byte limit and in their treatment of a final CR.
-/

namespace Assuan

namespace Channel

open LineBuffer

/-- The writer: one `write_line` after the other. -/
def writeLines (lines : List Bytes) : Action Channel TransportError Unit :=
  Action.forEach writeLine lines

/-- The reader after `n` reads, each followed by an overwriting of the returned
line in place. -/
def readTimes (edits : ℕ → Bytes) (ch : Channel) : ℕ → Channel
  | 0 => ch
  | n + 1 => (readLineOrEof (readTimes edits ch n)).2.editLine (edits n)

/-- What an open stream has yet to deliver. -/
def undelivered (ch : Channel) : Bytes :=
  match ch.stream with
  | some stream => incoming stream.reads
  | none => []

/-! ## §1  What the writer accepts -/

/-- A line that `write_line` accepts is one segment within the limit. -/
theorem validateWireLine_terminated {bytes : Bytes} (h : validateWireLine bytes = .ok ()) :
    Terminated lf bytes ∧ bytes.length ≤ maxLineBytes := by
  unfold validateWireLine at h
  by_cases hlen : bytes.length > maxLineBytes
  · simp [hlen] at h
  rw [if_neg hlen] at h
  by_cases hlf : bytes.getLast? = some lf
  · rw [if_neg (by simpa using hlf)] at h
    by_cases hbody : (stripCr bytes.dropLast).any isForbidden = true
    · simp [hbody] at h
    · have hclean : isCleanLine (stripCr bytes.dropLast) = true := by
        simpa [isCleanLine] using hbody
      have hsnoc : bytes = bytes.dropLast ++ [lf] := by
        have hne : bytes ≠ [] := by
          rintro rfl
          simp at hlf
        rw [List.getLast?_eq_some_getLast hne] at hlf
        rw [← Option.some.inj hlf, List.dropLast_append_getLast hne]
      refine ⟨⟨bytes.dropLast, ?_, hsnoc⟩, by omega⟩
      intro hmem
      -- the last byte of the body may be a CR; no other byte is special
      unfold stripCr at hclean
      by_cases hcr : bytes.dropLast.getLast? = some cr
      · rw [if_pos hcr] at hclean
        have hne : bytes.dropLast ≠ [] := by
          intro hnil
          rw [hnil] at hcr
          simp at hcr
        rw [← List.dropLast_append_getLast hne, List.mem_append] at hmem
        rw [List.getLast?_eq_some_getLast hne] at hcr
        rcases hmem with hmem | hmem
        · exact absurd rfl ((isCleanLine_iff.mp hclean) lf hmem).2.2
        · rw [List.mem_singleton, Option.some.inj hcr] at hmem
          exact absurd hmem (by decide)
      · rw [if_neg hcr] at hclean
        exact absurd rfl ((isCleanLine_iff.mp hclean) lf hmem).2.2
  · simp [hlf] at h

theorem writeLines_written {lines : List Bytes} {ch ch' : Channel} (hstanding : Standing ch)
    (h : writeLines lines ch = (.ok (), ch')) :
    written ch'.trace = written ch.trace ++ lines.flatten ∧
      ∀ bytes ∈ lines, validateWireLine bytes = .ok () := by
  induction lines generalizing ch with
  | nil =>
      obtain rfl : ch = ch' := (Prod.mk.inj h).2
      simp
  | cons bytes lines ih =>
      obtain ⟨u, mid, hwrite, hrest⟩ := Action.bind_eq_ok.mp h
      have heffect := writeLine_effect hstanding bytes
      rw [hwrite] at heffect
      have htrace : mid.trace = ch.trace ++ [.wrote bytes] := (heffect.sent rfl).1
      obtain ⟨hwritten, hvalid⟩ := ih heffect.standing hrest
      constructor
      · rw [hwritten, htrace, written_append]
        simp [written]
      · intro line hline
        rcases List.mem_cons.mp hline with rfl | hline
        · exact heffect.valid (by simp [htrace])
        · exact hvalid line hline

/-! ## §2  The reader -/

theorem editLine_standing {stream : Option Stream} {line : LineBuffer} {unread : Bytes}
    {clock : List Bool} {trace : List Io} (content : Bytes) :
    (standing stream line unread clock trace).editLine content =
      standing stream (line.editLine content) unread clock trace := rfl

/-- Before read `n` the unread stream is the lines from `n` on, wherever they
are buffered and whatever was done to the lines already read. -/
theorem readTimes_spec {lines : List Bytes} (hlines : ∀ bytes ∈ lines,
      Terminated lf bytes ∧ bytes.length ≤ maxLineBytes)
    {reads : List ReadStep} (hreads : Reliable reads) (hincoming : incoming reads = lines.flatten)
    (edits : ℕ → Bytes) (n : ℕ) :
    ∃ reads' line unread trace,
      readTimes edits (new ⟨reads, []⟩ []) n =
        standing (some ⟨reads', []⟩) line unread [] trace ∧
      Reliable reads' ∧ unread.length ≤ maxLineBytes ∧
      unread ++ incoming reads' = (lines.drop n).flatten := by
  induction n with
  | zero =>
      refine ⟨reads, .new, [], [], new_eq_standing _ _, hreads, Nat.zero_le _, ?_⟩
      rw [List.nil_append, hincoming, List.drop_zero]
  | succ n ih =>
      obtain ⟨reads', line, unread, trace, hch, hreads', hunread, hrest⟩ := ih
      rw [readTimes, hch]
      by_cases hn : n < lines.length
      · rw [List.drop_eq_getElem_cons hn, List.flatten_cons] at hrest
        obtain ⟨hterm, hlen⟩ := hlines lines[n] (List.getElem_mem hn)
        obtain ⟨unread', reads'', rs, hread, hreads'', hunread', hrest', -⟩ :=
          readLineOrEof_line hterm hlen hreads' hunread hrest
        rw [hread, editLine_standing]
        exact ⟨reads'', _, unread', _, rfl, hreads'', hunread', hrest'⟩
      · have hnil : lines.drop n = [] := List.drop_eq_nil_of_le (by omega)
        have hnil' : lines.drop (n + 1) = [] := List.drop_eq_nil_of_le (by omega)
        rw [hnil, List.flatten_nil] at hrest
        rw [readLineOrEof_eof hreads' hrest, editLine_standing, hnil']
        exact ⟨[], _, [], _, rfl, by simp [Reliable], Nat.zero_le _, by simp [incoming]⟩

/-- **The line pipe.** Lines that one channel has written, delivered to another
in any nonempty pieces, are read back one by one without their terminators and
followed by `None`, whatever the reader does to each returned line; after every
read the read-ahead buffer and the stream together hold exactly the lines not
read yet, and nothing any more once `None` was returned. -/
theorem pipe_lossless (lines : List Bytes) (writer : Stream) (clock : List Bool)
    (writer' : Channel) (chunks : List Chunk) (edits : ℕ → Bytes)
    (hwrite : writeLines lines (new writer clock) = (.ok (), writer'))
    (hchunks : (chunks.map Chunk.bytes).flatten = written writer'.trace) :
    let reader := readTimes edits (new ⟨chunks.map .data, []⟩ [])
    (∀ n (hn : n < lines.length),
      let after := (readLineOrEof (reader n)).2
      (readLineOrEof (reader n)).1 = .ok (some (stripTerminator lines[n])) ∧
      after.ahead.bytes.take after.pending ++ after.undelivered =
        (lines.drop (n + 1)).flatten) ∧
    ∀ n, lines.length ≤ n →
      let after := (readLineOrEof (reader n)).2
      (readLineOrEof (reader n)).1 = .ok none ∧
      after.ahead.bytes.take after.pending ++ after.undelivered = [] := by
  intro reader
  obtain ⟨hwritten, hvalid⟩ := writeLines_written (standing_new writer clock) hwrite
  have hlines : ∀ bytes ∈ lines, Terminated lf bytes ∧ bytes.length ≤ maxLineBytes :=
    fun bytes hbytes => validateWireLine_terminated (hvalid bytes hbytes)
  have hincoming : incoming (chunks.map .data) = lines.flatten := by
    rw [incoming_chunks, hchunks, hwritten]
    rfl
  refine ⟨fun n hn => ?_, fun n hn => ?_⟩
  · obtain ⟨reads, line, unread, trace, hch, hreads, hunread, hrest⟩ :=
      readTimes_spec hlines (reliable_chunks chunks) hincoming edits n
    rw [List.drop_eq_getElem_cons hn, List.flatten_cons] at hrest
    obtain ⟨hterm, hlen⟩ := hlines lines[n] (List.getElem_mem hn)
    obtain ⟨unread', reads', rs, hread, -, hunread', hrest', -⟩ :=
      readLineOrEof_line hterm hlen hreads hunread hrest
    have hreader : reader n = standing (some ⟨reads, []⟩) line unread [] trace := hch
    rw [hreader, hread]
    refine ⟨rfl, ?_⟩
    rw [← hrest']
    show (Buffer.pad maxLineBytes unread').bytes.take unread'.length ++ _ = _
    rw [Buffer.pad_take hunread']
    rfl
  · obtain ⟨reads, line, unread, trace, hch, hreads, -, hrest⟩ :=
      readTimes_spec hlines (reliable_chunks chunks) hincoming edits n
    rw [List.drop_eq_nil_of_le hn, List.flatten_nil] at hrest
    have hreader : reader n = standing (some ⟨reads, []⟩) line unread [] trace := hch
    rw [hreader, readLineOrEof_eof hreads hrest]
    exact ⟨rfl, rfl⟩

/-- `OK\r\n#\n` in three pieces that cut both the CRLF and the second line. -/
def crlfChunks : List Chunk :=
  [⟨[79, 75, 13], by decide, by decide⟩, ⟨[10, 35], by decide, by decide⟩,
    ⟨[10], by decide, by decide⟩]

theorem pipe_lossless_crlf :
    (readLineOrEof (readTimes (fun _ => [0, 0]) (new ⟨crlfChunks.map .data, []⟩ []) 0)).1 =
      .ok (some [79, 75]) ∧
    (readLineOrEof (readTimes (fun _ => [0, 0]) (new ⟨crlfChunks.map .data, []⟩ []) 1)).1 =
      .ok (some [35]) := by
  have hwrite : writeLines [[79, 75, 13, 10], [35, 10]] (new ⟨[], []⟩ []) =
      (.ok (), standing (some ⟨[], []⟩) .new [] [] [.wrote [79, 75, 13, 10], .wrote [35, 10]]) := by
    rw [new_eq_standing, writeLines, Action.forEach, Action.bind_ok (writeLine_done (by decide)),
      Action.forEach, Action.bind_ok (writeLine_done (by decide))]
    rfl
  have hpipe := pipe_lossless _ _ _ _ crlfChunks (fun _ => [0, 0]) hwrite rfl
  exact ⟨(hpipe.1 0 (by decide)).1, (hpipe.1 1 (by decide)).1⟩

end Channel

end Assuan
