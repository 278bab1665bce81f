import Assuan.Foundation.Coupling
import Assuan.Transport.ChannelSpec

/-!
# What of a stream can be told apart

A stream delivers its bytes in pieces of any size until it ends or fails. The
pieces decide how much is read ahead and what is discarded after a failure, and
nothing else: two channels with the same bytes to come, the same end and the same
writes are told apart by no operation that succeeds, and a failure is the same
failure on both.
-/

namespace Assuan

namespace Channel

open LineBuffer

/-! ## §1  The end of a script -/

/-- How the first step that brings no data ends a read: `ok` is the end of the
stream. -/
def stop : List ReadStep → Outcome TransportError Unit
  | [] => .ok ()
  | .data _ :: rest => stop rest
  | .eof :: _ => .ok ()
  | .failed :: _ => .err .io
  | .expired :: _ => .err .timeout
  | .dropped :: _ => .dropped

/-- A read in terms of everything that is to come: the first line of it, with its
terminator, and the rest. The piece that makes a line too long is fed before the
stream is asked again, so a fault behind it does not show. -/
def reading (input : Bytes) (stop : Outcome TransportError Unit) :
    Outcome TransportError (Option (Bytes × Bytes)) :=
  match firstSegment lf input with
  | some (seg, rest) =>
      if seg.length ≤ maxLineBytes then .ok (some (seg, rest))
      else .err (.protocol .lineTooLong)
  | none =>
      if maxLineBytes ≤ input.length then .err (.protocol .lineTooLong)
      else do
        stop
        if input = [] then .ok none else .err (.protocol .unexpectedEof)

variable {stream : Option Stream} {line : LineBuffer} {unread : Bytes} {clock : List Bool}
  {trace : List Io}

/-- How `receive` ends, by what it takes: the line buffer it leaves, and how much
is left to be read. -/
def Reads (writes : List WriteStep) (clock : List Bool) (trace : List Io) (reads : List ReadStep)
    (result : Outcome TransportError (Option (Bytes × Bytes)))
    (r : Outcome TransportError Unit × Channel) : Prop :=
  ∃ (line : LineBuffer) (unread : Bytes) (reads' : List ReadStep) (rs : List Bytes),
    r.2 = standing (some ⟨reads', writes⟩) line unread clock (trace ++ rs.map .read) ∧
    unread.length ≤ maxLineBytes ∧
    match result with
    | .ok (some (seg, rest)) => r.1 = .ok () ∧ line = complete seg ∧ seg.length ≤ maxLineBytes ∧
        unread ++ incoming reads' = rest ∧ stop reads' = stop reads
    | .ok none => r.1 = .ok () ∧ line = .new
    | o => r.1 = o.relabel

section Rounds

variable {writes : List WriteStep} {reads reads' : List ReadStep} {acc : Bytes}
  {result : Outcome TransportError (Option (Bytes × Bytes))}

theorem Reads.failed {o : Outcome TransportError Unit} (rs : List Bytes)
    (hunread : unread.length ≤ maxLineBytes) (hfail : result.Failed) (ho : o = result.relabel) :
    Reads writes clock trace reads result
      (o, standing (some ⟨reads', writes⟩) line unread clock (trace ++ rs.map .read)) := by
  refine ⟨line, unread, reads', rs, rfl, hunread, ?_⟩
  cases result with
  | ok a => exact absurd hfail (by simp)
  | err e => exact ho
  | panic => exact ho
  | dropped => exact ho

theorem reading_line {input seg rest : Bytes} (hterm : Terminated lf seg)
    (hseg : seg.length ≤ maxLineBytes) (hsplit : input = seg ++ rest)
    (stop : Outcome TransportError Unit) : reading input stop = .ok (some (seg, rest)) := by
  rw [reading, hsplit, hterm.firstSegment rest]
  exact if_pos hseg

/-- No line that starts like this can fit. -/
theorem reading_tooLong {held : Bytes}
    (hlong : ∀ seg rest later, Terminated lf seg → held ++ later = seg ++ rest →
      maxLineBytes < seg.length) (later : Bytes) (stop : Outcome TransportError Unit) :
    reading (held ++ later) stop = .err (.protocol .lineTooLong) := by
  rw [reading]
  cases hfirst : firstSegment lf (held ++ later) with
  | none =>
      apply if_pos
      have hlf : lf ∉ held := fun h => firstSegment_eq_none.mp hfirst (List.mem_append_left _ h)
      have hlt := hlong (held ++ [lf]) [] [lf] ⟨held, hlf, rfl⟩ (by simp)
      rw [List.length_append, List.length_singleton] at hlt
      rw [List.length_append]
      exact Nat.le_trans (Nat.le_of_lt_succ hlt) (Nat.le_add_right _ _)
  | some p =>
      obtain ⟨seg, rest⟩ := p
      obtain ⟨hterm, hsplit⟩ := firstSegment_eq_some hfirst
      exact if_neg (Nat.not_le.mpr (hlong seg rest later hterm hsplit))

theorem reading_short {input : Bytes} (hlf : lf ∉ input) (hshort : input.length < maxLineBytes)
    (stop : Outcome TransportError Unit) : reading input stop = (do
      stop
      if input = [] then .ok none else .err (.protocol .unexpectedEof)) := by
  rw [reading, firstSegment_eq_none.mpr hlf]
  exact if_neg (Nat.not_le.mpr hshort)

/-- A read that returns nothing, in the middle of a line or between two. -/
theorem Reads.finished {input : Bytes} (hlf : lf ∉ input) (hshort : input.length < maxLineBytes) :
    Reads writes clock trace reads (reading input (.ok ()))
      (standing (some ⟨reads', writes⟩) (holding input) [] clock (trace ++ [.read []])).finishRead := by
  rw [reading_short hlf hshort, finishRead_standing, Outcome.ok_bind]
  by_cases hnil : input = []
  · subst hnil
    exact ⟨holding [], [], reads', [[]], rfl, Nat.zero_le _, rfl, holding_nil⟩
  · rw [if_neg hnil, if_neg hnil]
    exact Reads.failed [[]] (Nat.zero_le _) (by simp) rfl

/-- A read that fails. -/
theorem Reads.stopped {input : Bytes} {o : Outcome TransportError Unit} (hlf : lf ∉ input)
    (hshort : input.length < maxLineBytes) (ho : o.Failed) :
    Reads writes clock trace reads (reading input o)
      (o, standing (some ⟨reads', writes⟩) line [] clock (trace ++ [.read []])) := by
  rw [reading_short hlf hshort]
  apply Reads.failed [[]] (Nat.zero_le _)
  · cases o with
    | ok a => exact absurd ho (by simp)
    | err e => simp
    | panic => simp
    | dropped => simp
  · cases o with
    | ok a => exact absurd ho (by simp)
    | err e => rfl
    | panic => rfl
    | dropped => rfl

/-- A line that is complete before anything is read. -/
theorem Reads.buffered {seg rest input : Bytes} (hterm : Terminated lf seg)
    (hseg : seg.length ≤ maxLineBytes) (hrest : rest.length ≤ maxLineBytes)
    (hinput : input = seg ++ (rest ++ incoming reads)) :
    Reads writes clock trace reads (reading input (stop reads))
      (.ok (), standing (some ⟨reads, writes⟩) (complete seg) rest clock trace) := by
  rw [reading_line hterm hseg hinput]
  exact ⟨complete seg, rest, reads, [], by simp, hrest, rfl, rfl, hseg, rfl, rfl⟩

theorem Reads.tooLong {held : Bytes} (hunread : unread.length ≤ maxLineBytes)
    (hlong : ∀ seg rest later, Terminated lf seg → held ++ later = seg ++ rest →
      maxLineBytes < seg.length) (later : Bytes) (stop : Outcome TransportError Unit) :
    Reads writes clock trace reads (reading (held ++ later) stop)
      (.err (.protocol .lineTooLong), standing (some ⟨reads', writes⟩) line unread clock trace) := by
  rw [reading_tooLong hlong]
  exact ⟨line, unread, reads', [], by simp, hunread, rfl⟩

/-- An earlier read precedes whatever the rest of the loop does. -/
theorem Reads.cons {chunk : Chunk} {r : Outcome TransportError Unit × Channel}
    (h : Reads writes clock (trace ++ [.read chunk.bytes]) reads result r) :
    Reads writes clock trace (.data chunk :: reads) result r := by
  obtain ⟨line, unread, reads', rs, hch, hlen, hend⟩ := h
  refine ⟨line, unread, reads', chunk.bytes :: rs, ?_, hlen, hend⟩
  rw [hch]
  simp

end Rounds

/-- The loop takes the first line of what it holds, has buffered and will get, in
whatever pieces it gets it. -/
theorem receiveLoop_reads (writes : List WriteStep) (clock : List Bool) (reads : List ReadStep) :
    ∀ (acc unread : Bytes) (trace : List Io), unread.length ≤ maxLineBytes →
      acc.length < maxLineBytes → lf ∉ acc →
      Reads writes clock trace reads (reading (acc ++ unread ++ incoming reads) (stop reads))
        (receiveLoop writes reads
          (standing (some ⟨reads, writes⟩) (holding acc) unread clock trace)) := by
  induction reads with
  | nil =>
      intro acc unread trace hunread hacc hlf
      rw [receiveLoop]
      rcases feedPending_cases hunread hacc hlf with
        ⟨seg, rest, hterm, hlen, hsplit, hrest, hfeed⟩ | ⟨hlf', hacc', hfeed⟩ | ⟨hlong, hfeed⟩
      · rw [hfeed]
        exact Reads.buffered hterm hlen hrest (by rw [hsplit, List.append_assoc])
      · rw [hfeed, incoming, List.append_nil]
        exact Reads.finished hlf' hacc'
      · rw [hfeed]
        exact Reads.tooLong hunread hlong _ _
  | cons step later ih =>
      intro acc unread trace hunread hacc hlf
      rw [receiveLoop]
      rcases feedPending_cases hunread hacc hlf with
        ⟨seg, rest, hterm, hlen, hsplit, hrest, hfeed⟩ | ⟨hlf', hacc', hfeed⟩ | ⟨hlong, hfeed⟩
      · rw [hfeed]
        exact Reads.buffered hterm hlen hrest (by rw [hsplit, List.append_assoc])
      · rw [hfeed]
        cases step with
        | eof =>
            have hnone : acc ++ unread ++ incoming (.eof :: later) = acc ++ unread :=
              List.append_nil _
            rw [hnone]
            exact Reads.finished hlf' hacc'
        | failed =>
            have hnone : acc ++ unread ++ incoming (.failed :: later) = acc ++ unread :=
              List.append_nil _
            rw [hnone]
            exact Reads.stopped hlf' hacc' (by simp [stop])
        | expired =>
            have hnone : acc ++ unread ++ incoming (.expired :: later) = acc ++ unread :=
              List.append_nil _
            rw [hnone]
            exact Reads.stopped hlf' hacc' (by simp [stop])
        | dropped =>
            have hnone : acc ++ unread ++ incoming (.dropped :: later) = acc ++ unread :=
              List.append_nil _
            rw [hnone]
            exact Reads.stopped hlf' hacc' (by simp [stop])
        -- the chunk comes into an empty read-ahead buffer
        | data chunk =>
            have hcopy := Buffer.copyAt_zero chunk.fits
            have hloop := ih (acc ++ unread) chunk.bytes (trace ++ [.read chunk.bytes]) chunk.fits
              hacc' hlf'
            rw [incoming, stop, ← List.append_assoc]
            simp only [standing, Buffer.pad_nil, hcopy]
            exact Reads.cons hloop
      · rw [hfeed]
        exact Reads.tooLong hunread hlong _ _

theorem Reads.failed_end {writes : List WriteStep} {reads : List ReadStep}
    {result : Outcome TransportError (Option (Bytes × Bytes))}
    {r : Outcome TransportError Unit × Channel} (h : Reads writes clock trace reads result r)
    (hfail : result.Failed) : r.1 = result.relabel := by
  obtain ⟨line, unread, reads', rs, -, -, hend⟩ := h
  cases result with
  | ok a => exact absurd hfail (by simp)
  | err e => exact hend
  | panic => exact hend
  | dropped => exact hend

/-- `read_line_or_eof` in terms of everything that is to come. -/
theorem readLineOrEof_reads {reads : List ReadStep} {writes : List WriteStep}
    (hunread : unread.length ≤ maxLineBytes) (htime : clock.headD false = false) :
    ∃ o ch, Reads writes clock.tail trace reads (reading (unread ++ incoming reads) (stop reads))
        (o, ch) ∧
      (o = .ok () → readLineOrEof (standing (some ⟨reads, writes⟩) line unread clock trace) =
        (.ok ch.line.line, ch)) ∧
      (o.Failed → readLineOrEof (standing (some ⟨reads, writes⟩) line unread clock trace) =
        (o.relabel, ch.clear)) := by
  have hloop : Reads writes clock.tail trace reads (reading (unread ++ incoming reads) (stop reads))
      (receive (standing (some ⟨reads, writes⟩) (holding []) unread clock.tail trace)) :=
    receiveLoop_reads writes clock.tail reads [] unread trace hunread (by decide) (by simp)
  rcases hr : receive (standing (some ⟨reads, writes⟩) (holding []) unread clock.tail trace)
    with ⟨o, ch⟩
  rw [hr] at hloop
  refine ⟨o, ch, hloop, ?_, ?_⟩
  · rintro rfl
    rw [readLineOrEof_standing, if_neg (Bool.eq_false_iff.mp htime), hr]
  · intro ho
    rw [readLineOrEof_standing, if_neg (Bool.eq_false_iff.mp htime), hr]
    cases o with
    | ok u => exact absurd ho (by simp)
    | err e => rfl
    | panic => rfl
    | dropped => rfl

/-! ## §2  Channels that cannot be told apart -/

/-- All that is left of the stream: the bytes to come, how they end, and the
writes. -/
def future (ch : Channel) : Option (Bytes × Outcome TransportError Unit × List WriteStep) :=
  ch.stream.map fun s => (ch.unreadBytes ++ incoming s.reads, stop s.reads, s.writes)

/-- Since `before` and `before'` the same bytes have been written. -/
def Sent (before before' trace trace' : List Io) : Prop :=
  ∃ since since', trace = before ++ since ∧ trace' = before' ++ since' ∧
    written since = written since'

/-- What a failure leaves in common. -/
structure Spent (before before' : List Io) (ch ch' : Channel) : Prop where
  clock : ch.clock = ch'.clock
  sent : Sent before before' ch.trace ch'.trace

structure Same (before before' : List Io) (ch ch' : Channel) : Prop
    extends Spent before before' ch ch' where
  standing : Standing ch
  standing' : Standing ch'
  line : ch.line = ch'.line
  future : ch.future = ch'.future

section Same

open Assuan.Action (Coupled)

variable {before before' : List Io} {ch ch' : Channel}

theorem sent_start (trace trace' : List Io) : Sent trace trace' trace trace' :=
  ⟨[], [], by simp, by simp, rfl⟩

/-- What has been read does not show. -/
theorem Sent.reads {trace trace' : List Io} (h : Sent before before' trace trace')
    (rs rs' : List Bytes) : Sent before before' (trace ++ rs.map .read) (trace' ++ rs'.map .read) := by
  obtain ⟨since, since', rfl, rfl, hwritten⟩ := h
  refine ⟨since ++ rs.map .read, since' ++ rs'.map .read, ?_, ?_, ?_⟩
  · rw [List.append_assoc]
  · rw [List.append_assoc]
  · rw [written_append, written_append, written_reads, written_reads, hwritten]

theorem Sent.wrote {trace trace' : List Io} (h : Sent before before' trace trace') (bytes : Bytes) :
    Sent before before' (trace ++ [.wrote bytes]) (trace' ++ [.wrote bytes]) := by
  obtain ⟨since, since', rfl, rfl, hwritten⟩ := h
  refine ⟨since ++ [.wrote bytes], since' ++ [.wrote bytes], ?_, ?_, ?_⟩
  · rw [List.append_assoc]
  · rw [List.append_assoc]
  · rw [written_append, written_append, hwritten]

theorem future_standing {s : Stream} (hunread : unread.length ≤ maxLineBytes) :
    (standing (some s) line unread clock trace).future =
      some (unread ++ incoming s.reads, stop s.reads, s.writes) := by
  rw [future, unreadBytes_standing hunread]
  rfl

/-- Two new channels over streams with one future. -/
theorem same_new {s s' : Stream} (clock : List Bool) (hbytes : incoming s.reads = incoming s'.reads)
    (hstop : stop s.reads = stop s'.reads) (hwrites : s.writes = s'.writes) :
    Same [] [] (new s clock) (new s' clock) := by
  refine ⟨⟨rfl, sent_start [] []⟩, standing_new s clock, standing_new s' clock, rfl, ?_⟩
  rw [new_eq_standing, new_eq_standing, future_standing (Nat.zero_le _),
    future_standing (Nat.zero_le _), hbytes, hstop, hwrites]

/-- Closing forgets the stream. -/
theorem Spent.close (h : Spent before before' ch ch') : Same before before' ch.close ch'.close :=
  ⟨⟨h.clock, h.sent⟩, standing_close ch, standing_close ch', rfl, rfl⟩

theorem Spent.clear (h : Spent before before' ch ch') : Spent before before' ch.clear ch'.clear :=
  ⟨h.clock, h.sent⟩

/-- A new point to count from. -/
theorem Same.rebase (h : Same before before' ch ch') : Same ch.trace ch'.trace ch ch' :=
  { h with sent := sent_start ch.trace ch'.trace }

theorem Same.editLine (h : Same before before' ch ch') (content : Bytes) :
    Same before before' (ch.editLine content) (ch'.editLine content) := by
  refine ⟨⟨h.clock, h.sent⟩, h.standing.editLine content, h.standing'.editLine content, ?_, h.future⟩
  show ch.line.editLine content = ch'.line.editLine content
  rw [h.line]

theorem Same.receivedLine (h : Same before before' ch ch') : ch.receivedLine = ch'.receivedLine := by
  rw [Channel.receivedLine, Channel.receivedLine, h.line]

theorem Same.readLineOrEof (h : Same before before' ch ch') :
    Coupled (Spent before before') (fun line ch ch' => Spent before before' ch ch' ∧
      (line ≠ none → Same before before' ch ch')) (readLineOrEof ch) (readLineOrEof ch') := by
  obtain ⟨stream, line, unread, clock, trace, hunread, rfl⟩ := h.standing
  obtain ⟨stream', line', unread', clock', trace', hunread', rfl⟩ := h.standing'
  obtain rfl : clock = clock' := h.clock
  have hsent : Sent before before' trace trace' := h.sent
  by_cases hlate : clock.headD false = true
  · rw [readLineOrEof_standing, readLineOrEof_standing, if_pos hlate, if_pos hlate]
    exact .failed (by simp) ⟨rfl, hsent⟩
  have hfuture := h.future
  rcases stream with _ | ⟨reads, writes⟩ <;> rcases stream' with _ | ⟨reads', writes'⟩
  · rw [readLineOrEof_standing, readLineOrEof_standing, if_neg hlate, if_neg hlate]
    exact .failed (by simp) ⟨rfl, hsent⟩
  · exact absurd hfuture (by simp [Channel.future, Channel.standing])
  · exact absurd hfuture (by simp [Channel.future, Channel.standing])
  · rw [future_standing hunread, future_standing hunread'] at hfuture
    simp only [Option.some.injEq, Prod.mk.injEq] at hfuture
    obtain ⟨hbytes, hstop, rfl⟩ := hfuture
    have htime : clock.headD false = false := Bool.eq_false_iff.mpr hlate
    obtain ⟨o, next, hreads, hok, hfailed⟩ := @readLineOrEof_reads line unread clock trace reads
      writes hunread htime
    obtain ⟨o', next', hreads', hok', hfailed'⟩ := @readLineOrEof_reads line' unread' clock trace'
      reads' writes hunread' htime
    rw [← hbytes, ← hstop] at hreads'
    -- both ends are read off the same reading
    have hend₁ := hreads.failed_end
    have hend₂ := hreads'.failed_end
    obtain ⟨line₁, unread₁, reads₁, rs, hnext, hlen, hend⟩ := hreads
    obtain ⟨line₂, unread₂, reads₂, rs', hnext', hlen', hend'⟩ := hreads'
    obtain rfl : next = _ := hnext
    obtain rfl : next' = _ := hnext'
    have hspent : Spent before before' (Channel.standing (some ⟨reads₁, writes⟩) line₁ unread₁ clock.tail
          (trace ++ rs.map .read))
        (Channel.standing (some ⟨reads₂, writes⟩) line₂ unread₂ clock.tail
          (trace' ++ rs'.map .read)) := ⟨rfl, hsent.reads rs rs'⟩
    rcases (reading (unread ++ incoming reads) (stop reads)).ok_or_failed with ⟨taken, htaken⟩ | hfail
    · rw [htaken] at hend hend'
      cases taken with
      | none =>
          obtain ⟨rfl, rfl⟩ := hend
          obtain ⟨rfl, rfl⟩ := hend'
          rw [hok rfl, hok' rfl]
          exact .ok ⟨hspent, fun h => absurd rfl h⟩
      | some p =>
          obtain ⟨seg, rest⟩ := p
          obtain ⟨rfl, rfl, hseg, hrest, hstop₁⟩ := hend
          obtain ⟨rfl, rfl, -, hrest', hstop₂⟩ := hend'
          rw [hok rfl, hok' rfl]
          refine .ok ⟨hspent, fun _ => ⟨hspent, standing_intro hlen, standing_intro hlen', rfl, ?_⟩⟩
          rw [future_standing hlen, future_standing hlen', hrest, hrest', hstop₁, hstop₂, hstop]
    · obtain rfl : o = _ := hend₁ hfail
      obtain rfl : o' = _ := hend₂ hfail
      rw [hfailed hfail.relabel, hfailed' hfail.relabel]
      exact .failed hfail.relabel.relabel hspent.clear

theorem Same.readLine (h : Same before before' ch ch') :
    Coupled (Spent before before') (fun _ => Same before before') (Channel.readLine ch) (Channel.readLine ch') := by
  apply Coupled.bind h.readLineOrEof
  rintro line ch ch' ⟨hspent, hsame⟩
  cases line with
  | none => exact .failed (by simp) hspent
  | some line => exact .ok (hsame (by simp))

/-- A write meets the same part of the script on both sides. -/
theorem Same.writeLine (h : Same before before' ch ch') (bytes : Bytes) :
    Coupled (Spent before before') (fun _ => Same before before') (Channel.writeLine bytes ch)
      (Channel.writeLine bytes ch') := by
  obtain ⟨stream, line, unread, clock, trace, hunread, rfl⟩ := h.standing
  obtain ⟨stream', line', unread', clock', trace', hunread', rfl⟩ := h.standing'
  obtain rfl : clock = clock' := h.clock
  obtain rfl : line = line' := h.line
  have hsent : Sent before before' trace trace' := h.sent
  have hfuture := h.future
  rw [writeLine_standing, writeLine_standing]
  rcases validateWireLine_cases bytes with ⟨hvalid, -⟩ | ⟨e, hinvalid⟩
  swap
  · simp only [hinvalid]
    exact .failed (by simp) ⟨rfl, hsent⟩
  simp only [hvalid]
  by_cases hlate : clock.headD false = true
  · rw [if_pos hlate, if_pos hlate]
    exact .failed (by simp) ⟨rfl, hsent⟩
  rw [if_neg hlate, if_neg hlate]
  rcases stream with _ | ⟨reads, writes⟩ <;> rcases stream' with _ | ⟨reads', writes'⟩
  · exact .failed (by simp) ⟨rfl, hsent⟩
  · exact absurd hfuture (by simp [Channel.future, Channel.standing])
  · exact absurd hfuture (by simp [Channel.future, Channel.standing])
  · rw [future_standing hunread, future_standing hunread'] at hfuture
    simp only [Option.some.injEq, Prod.mk.injEq] at hfuture
    obtain ⟨hbytes, hstop, rfl⟩ := hfuture
    simp only
    cases writes.headD .done with
    | done =>
        refine .ok ⟨⟨rfl, hsent.wrote bytes⟩, standing_intro hunread, standing_intro hunread', rfl, ?_⟩
        rw [future_standing hunread, future_standing hunread', hbytes, hstop]
    | failed n => exact .failed (by simp) ⟨rfl, hsent.wrote _⟩
    | expired n => exact .failed (by simp) ⟨rfl, hsent.wrote _⟩
    | dropped n => exact .failed (by simp) ⟨rfl, hsent.wrote _⟩

end Same

end Channel

end Assuan
