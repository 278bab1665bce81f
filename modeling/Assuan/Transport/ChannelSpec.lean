import Assuan.Transport.Channel

/-!
# What the channel operations do

`Channel.standing` is a channel described by its unread bytes alone: the
read-ahead buffer holds exactly them, and everything else is wiped. Every
operation leads from one standing channel to another, and the lemmas below are
stated in that form. §3 is for an arbitrary peer, §4 for a reliable one.
-/

namespace Assuan

namespace Channel

open LineBuffer

/-! ## §1  Standing channels -/

/-- The channel whose unread bytes are `unread`. -/
def standing (stream : Option Stream) (line : LineBuffer) (unread : Bytes) (clock : List Bool)
    (trace : List Io) : Channel :=
  ⟨stream, line, Buffer.pad _ unread, unread.length, Buffer.zero _, clock, trace⟩

/-- Nothing but unread bytes in the buffers. -/
def Standing (ch : Channel) : Prop :=
  ∃ stream line unread clock trace, unread.length ≤ maxLineBytes ∧
    ch = standing stream line unread clock trace

variable {stream : Option Stream} {line : LineBuffer} {unread : Bytes} {clock : List Bool}
  {trace : List Io}

theorem standing_stream : (standing stream line unread clock trace).stream = stream := rfl

theorem standing_write : (standing stream line unread clock trace).write = Buffer.zero _ := rfl

theorem standing_intro (h : unread.length ≤ maxLineBytes) :
    Standing (standing stream line unread clock trace) :=
  ⟨stream, line, unread, clock, trace, h, rfl⟩

theorem new_eq_standing (s : Stream) (clock : List Bool) :
    new s clock = standing (some s) .new [] clock [] := by
  simp [new, standing]

theorem standing_new (s : Stream) (clock : List Bool) : Standing (new s clock) := by
  rw [new_eq_standing]
  exact standing_intro (Nat.zero_le _)

theorem clear_eq_standing (ch : Channel) :
    ch.clear = standing ch.stream .new [] ch.clock ch.trace := by
  simp [clear, standing, LineBuffer.clear]

theorem standing_clear (ch : Channel) : Standing ch.clear := by
  rw [clear_eq_standing]
  exact standing_intro (Nat.zero_le _)

theorem close_eq_standing (ch : Channel) :
    ch.close = standing none .new [] ch.clock ch.trace := by
  rw [close, clear_eq_standing]
  rfl

theorem standing_close (ch : Channel) : Standing ch.close := by
  rw [close_eq_standing]
  exact standing_intro (Nat.zero_le _)

/-! ## §2  One round of `receive` -/

/-- Feeding the unread bytes to a line that holds `acc`. -/
theorem feedPending_standing {acc : Bytes} (hunread : unread.length ≤ maxLineBytes)
    (hacc : acc.length < maxLineBytes) :
    (standing stream (holding acc) unread clock trace).feedPending =
      match firstSegment lf unread with
      | some (seg, rest) =>
          if acc.length + seg.length ≤ maxLineBytes then
            (.ok true, standing stream (complete (acc ++ seg)) rest clock trace)
          else (.err (.protocol .lineTooLong), standing stream overlong unread clock trace)
      | none =>
          if acc.length + unread.length < maxLineBytes then
            (.ok false, standing stream (holding (acc ++ unread)) [] clock trace)
          else (.err (.protocol .lineTooLong), standing stream overlong unread clock trace) := by
  by_cases hnil : unread = []
  · subst hnil
    simp [feedPending, standing, firstSegment, hacc]
  · have hpending : (standing stream (holding acc) unread clock trace).pending ≠ 0 := by
      simpa [standing] using hnil
    have hslice : (standing stream (holding acc) unread clock trace).ahead.slice 0
        (standing stream (holding acc) unread clock trace).pending = some unread := by
      simp only [standing]
      rw [Buffer.slice_pad (Nat.zero_le _) (Nat.le_refl _) hunread]
      simp
    -- what `feed` has consumed is shifted out
    have hshift : ∀ (buffer : LineBuffer) (k : ℕ), k ≤ unread.length →
        (standing stream buffer unread clock trace).shiftAhead k =
          some (standing stream buffer (unread.drop k) clock trace) := by
      intro buffer k hk
      have hpad : ((Buffer.pad maxLineBytes unread).copyWithin k unread.length).bind
          (Buffer.zeroizeFrom · (unread.length - k)) =
            some (Buffer.pad maxLineBytes (unread.drop k)) := Buffer.shift_pad hk hunread
      rw [Option.bind_eq_some_iff] at hpad
      obtain ⟨ahead, hcopy, hzero⟩ := hpad
      simp only [shiftAhead, standing, hcopy, Option.bind_some, hzero, Option.map_some,
        List.length_drop]
    have hline : (standing stream (holding acc) unread clock trace).line = holding acc := rfl
    rw [feedPending, if_pos hpending, hslice]
    simp only [hline, feed_holding unread hacc]
    cases hseg : firstSegment lf unread with
    | none =>
        by_cases hfit : acc.length + unread.length < maxLineBytes
        · simp only [if_pos hfit]
          have := hshift (holding (acc ++ unread)) unread.length (Nat.le_refl _)
          simp only [standing, List.drop_length] at this ⊢
          simp only [this]
          rfl
        · simp only [if_neg hfit]
          rfl
    | some p =>
        obtain ⟨seg, rest⟩ := p
        obtain ⟨-, hsplit⟩ := firstSegment_eq_some hseg
        by_cases hfit : acc.length + seg.length ≤ maxLineBytes
        · have hle : seg.length ≤ unread.length := by
            rw [hsplit, List.length_append]
            omega
          have hdrop : unread.drop seg.length = rest := by rw [hsplit, List.drop_left]
          have := hshift (complete (acc ++ seg)) seg.length hle
          rw [hdrop] at this
          simp only [if_pos hfit]
          simp only [standing] at this ⊢
          simp only [this]
          rw [line_complete (by rwa [List.length_append])]
          rfl
        · simp only [if_neg hfit]
          rfl

/-- How feeding ends: with a line, with all unread bytes taken, or with a line
that cannot be finished any more. -/
theorem feedPending_cases {acc : Bytes} (hunread : unread.length ≤ maxLineBytes)
    (hacc : acc.length < maxLineBytes) (hlf : lf ∉ acc) :
    (∃ seg rest, Terminated lf seg ∧ seg.length ≤ maxLineBytes ∧ acc ++ unread = seg ++ rest ∧
      rest.length ≤ maxLineBytes ∧
      (standing stream (holding acc) unread clock trace).feedPending =
        (.ok true, standing stream (complete seg) rest clock trace)) ∨
    (lf ∉ acc ++ unread ∧ (acc ++ unread).length < maxLineBytes ∧
      (standing stream (holding acc) unread clock trace).feedPending =
        (.ok false, standing stream (holding (acc ++ unread)) [] clock trace)) ∨
    ((∀ seg rest later, Terminated lf seg → acc ++ unread ++ later = seg ++ rest →
        maxLineBytes < seg.length) ∧
      (standing stream (holding acc) unread clock trace).feedPending =
        (.err (.protocol .lineTooLong), standing stream overlong unread clock trace)) := by
  rw [feedPending_standing hunread hacc]
  cases hseg : firstSegment lf unread with
  | none =>
      have hall : lf ∉ acc ++ unread := by
        rw [List.mem_append, not_or]
        exact ⟨hlf, firstSegment_eq_none.mp hseg⟩
      by_cases hfit : acc.length + unread.length < maxLineBytes
      · refine Or.inr (Or.inl ⟨hall, ?_, by simp only [if_pos hfit]⟩)
        rwa [List.length_append]
      · refine Or.inr (Or.inr ⟨?_, by simp only [if_neg hfit]⟩)
        intro seg rest later hterm heq
        obtain ⟨seg', hseg', rfl, -⟩ := hterm.extends hall heq
        have := hseg'.length_pos
        rw [List.length_append, List.length_append]
        omega
  | some p =>
      obtain ⟨seg, rest⟩ := p
      obtain ⟨hterm, hsplit⟩ := firstSegment_eq_some hseg
      obtain ⟨body, hbody, rfl⟩ := hterm
      have hterm' : Terminated lf (acc ++ (body ++ [lf])) := by
        refine ⟨acc ++ body, ?_, by rw [List.append_assoc]⟩
        rw [List.mem_append, not_or]
        exact ⟨hlf, hbody⟩
      by_cases hfit : acc.length + (body ++ [lf]).length ≤ maxLineBytes
      · refine Or.inl ⟨acc ++ (body ++ [lf]), rest, hterm', ?_, ?_, ?_, by simp only [if_pos hfit]⟩
        · rwa [List.length_append]
        · rw [hsplit]
          simp only [List.append_assoc]
        · rw [hsplit, List.length_append] at hunread
          omega
      · refine Or.inr (Or.inr ⟨?_, by simp only [if_neg hfit]⟩)
        intro seg rest' later hseg' heq
        have hsame : acc ++ (body ++ [lf]) ++ (rest ++ later) = seg ++ rest' := by
          rw [← heq, hsplit]
          simp only [List.append_assoc]
        obtain ⟨rfl, -⟩ := hterm'.unique hseg' hsame
        rw [List.length_append]
        omega

/-! ## §3  Against any peer -/

/-- A line buffer after a successful read: nothing at the end of the stream, or
one whole line. `held` was buffered, `arrived` came in meanwhile, and `unread` is
left of both. -/
def LineOutcome (held arrived : Bytes) (buffer : LineBuffer) (unread : Bytes) : Prop :=
  (buffer = .new ∧ unread = [] ∧ held ++ arrived = []) ∨
  ∃ seg, Terminated lf seg ∧ seg.length ≤ maxLineBytes ∧ buffer = complete seg ∧
    held ++ arrived = seg ++ unread

theorem finishRead_standing {acc : Bytes} :
    (standing stream (holding acc) unread clock trace).finishRead =
      (if acc = [] then .ok () else .err (.protocol .unexpectedEof),
        standing stream (holding acc) unread clock trace) := by
  simp only [finishRead, standing, finishEof_holding]
  split <;> rfl

/-- Where `receive` can leave an open channel: reads in the trace, every byte
accounted for, and after a success a whole line or the end of the stream. -/
def Received (writes : List WriteStep) (clock : List Bool) (trace : List Io) (held : Bytes)
    (reads : List ReadStep) (r : Outcome TransportError Unit × Channel) : Prop :=
  ∃ (line : LineBuffer) (unread : Bytes) (reads' : List ReadStep) (rs : List Bytes),
    r.2 = standing (some ⟨reads', writes⟩) line unread clock (trace ++ rs.map .read) ∧
    unread.length ≤ maxLineBytes ∧ rs.flatten.length + volume reads' = volume reads ∧
    r.1 ≠ .panic ∧ (r.1 = .ok () → LineOutcome held rs.flatten line unread)

theorem afterRead_standing (writes : List WriteStep) (rest : List ReadStep) (bytes : Bytes) :
    (standing stream line unread clock trace).afterRead writes rest bytes =
      standing (some ⟨rest, writes⟩) line unread clock (trace ++ [.read bytes]) := rfl

section Rounds

variable {writes : List WriteStep} {reads reads' : List ReadStep} {held : Bytes}

theorem Received.stopped {o : Outcome TransportError Unit} (hvolume : volume reads' = volume reads)
    (hpanic : o ≠ .panic) (hok : o ≠ .ok ()) :
    Received writes clock trace held reads
      (o, standing (some ⟨reads', writes⟩) line [] clock (trace ++ [.read []])) :=
  ⟨line, [], reads', [[]], rfl, Nat.zero_le _, by simpa using hvolume, hpanic,
    fun h => absurd h hok⟩

theorem Received.finished {acc : Bytes} (hvolume : volume reads' = volume reads) :
    Received writes clock trace acc reads (standing (some ⟨reads', writes⟩) (holding acc) [] clock
      (trace ++ [.read []])).finishRead := by
  rw [finishRead_standing]
  by_cases hnil : acc = []
  · subst hnil
    exact ⟨holding [], [], reads', [[]], rfl, Nat.zero_le _, by simpa using hvolume, by simp,
      fun _ => Or.inl ⟨holding_nil, rfl, rfl⟩⟩
  · rw [if_neg hnil]
    exact Received.stopped hvolume (by simp) (by simp)

/-- A line that is complete before anything is read. -/
theorem Received.buffered {seg rest : Bytes} (hterm : Terminated lf seg)
    (hlen : seg.length ≤ maxLineBytes) (hsplit : held = seg ++ rest)
    (hrest : rest.length ≤ maxLineBytes) :
    Received writes clock trace held reads
      (.ok (), standing (some ⟨reads, writes⟩) (complete seg) rest clock trace) := by
  refine ⟨complete seg, rest, reads, [], by simp, hrest, by simp, by simp, ?_⟩
  intro _
  exact Or.inr ⟨seg, hterm, hlen, rfl, by simpa using hsplit⟩

theorem Received.tooLong (hunread : unread.length ≤ maxLineBytes) :
    Received writes clock trace held reads (.err (.protocol .lineTooLong),
      standing (some ⟨reads, writes⟩) overlong unread clock trace) :=
  ⟨overlong, unread, reads, [], by simp, hunread, by simp, by simp, by simp⟩

/-- An earlier read precedes whatever the rest of the loop does. -/
theorem Received.cons {chunk : Chunk} {r : Outcome TransportError Unit × Channel}
    (h : Received writes clock (trace ++ [.read chunk.bytes]) (held ++ chunk.bytes) reads r) :
    Received writes clock trace held (.data chunk :: reads) r := by
  obtain ⟨line, unread, reads', rs, hch, hlen, hvolume, hpanic, hok⟩ := h
  refine ⟨line, unread, reads', chunk.bytes :: rs, ?_, hlen, ?_, hpanic, ?_⟩
  · rw [hch]
    simp
  · rw [volume, List.flatten_cons, List.length_append]
    omega
  · intro h
    rcases hok h with ⟨hnew, hunread, hnone⟩ | ⟨seg, hterm, hseg, hline, hsplit⟩
    · refine Or.inl ⟨hnew, hunread, ?_⟩
      rw [← hnone, List.flatten_cons, List.append_assoc]
    · refine Or.inr ⟨seg, hterm, hseg, hline, ?_⟩
      rw [← hsplit, List.flatten_cons, List.append_assoc]

end Rounds

theorem receiveLoop_any (writes : List WriteStep) (reads : List ReadStep) :
    ∀ (acc unread : Bytes) (trace : List Io), unread.length ≤ maxLineBytes →
      acc.length < maxLineBytes → lf ∉ acc →
      Received writes clock trace (acc ++ unread) reads (receiveLoop writes reads
        (standing (some ⟨reads, writes⟩) (holding acc) unread clock trace)) := by
  induction reads with
  | nil =>
      intro acc unread trace hunread hacc hlf
      rw [receiveLoop]
      rcases feedPending_cases hunread hacc hlf with
        ⟨seg, rest, hterm, hlen, hsplit, hrest, hfeed⟩ | ⟨-, -, hfeed⟩ | ⟨-, hfeed⟩
      · rw [hfeed]
        exact Received.buffered hterm hlen hsplit hrest
      · rw [hfeed]
        exact Received.finished rfl
      · rw [hfeed]
        exact Received.tooLong hunread
  | cons step later ih =>
      intro acc unread trace hunread hacc hlf
      rw [receiveLoop]
      rcases feedPending_cases hunread hacc hlf with
        ⟨seg, rest, hterm, hlen, hsplit, hrest, hfeed⟩ | ⟨hlf', hacc', hfeed⟩ | ⟨-, hfeed⟩
      · rw [hfeed]
        exact Received.buffered hterm hlen hsplit hrest
      · rw [hfeed]
        cases step with
        | eof => exact Received.finished rfl
        | failed => exact Received.stopped rfl (by simp) (by simp)
        | expired => exact Received.stopped rfl (by simp) (by simp)
        | dropped => exact Received.stopped rfl (by simp) (by simp)
        -- the chunk comes into an empty read-ahead buffer
        | data chunk =>
            have hcopy := Buffer.copyAt_zero chunk.fits
            simp only [standing, Buffer.pad_nil, hcopy]
            exact Received.cons (ih (acc ++ unread) chunk.bytes _ chunk.fits hacc' hlf')
      · rw [hfeed]
        exact Received.tooLong hunread

/-- A future is dropped only while the line is incomplete and may still become one. -/
theorem receiveLoop_dropped (writes : List WriteStep) (reads : List ReadStep) {ch : Channel} :
    ∀ (acc unread : Bytes) (trace : List Io), unread.length ≤ maxLineBytes →
      acc.length < maxLineBytes → lf ∉ acc →
      receiveLoop writes reads (standing (some ⟨reads, writes⟩) (holding acc) unread clock trace) =
        (.dropped, ch) →
      ∃ rs : List Bytes, ch.trace = trace ++ rs.map .read ∧ lf ∉ acc ++ unread ++ rs.flatten ∧
        (acc ++ unread ++ rs.flatten).length < maxLineBytes := by
  induction reads with
  | nil =>
      intro acc unread trace hunread hacc hlf hrun
      rw [receiveLoop] at hrun
      rcases feedPending_cases hunread hacc hlf with
        ⟨seg, rest, -, -, -, -, hfeed⟩ | ⟨-, -, hfeed⟩ | ⟨-, hfeed⟩
      · rw [hfeed] at hrun
        exact absurd hrun (by simp)
      · rw [hfeed] at hrun
        simp only [afterRead_standing, finishRead_standing] at hrun
        split at hrun <;> exact absurd hrun (by simp)
      · rw [hfeed] at hrun
        exact absurd hrun (by simp)
  | cons step later ih =>
      intro acc unread trace hunread hacc hlf hrun
      rw [receiveLoop] at hrun
      rcases feedPending_cases hunread hacc hlf with
        ⟨seg, rest, -, -, -, -, hfeed⟩ | ⟨hlf', hacc', hfeed⟩ | ⟨-, hfeed⟩
      · rw [hfeed] at hrun
        exact absurd hrun (by simp)
      · rw [hfeed] at hrun
        cases step with
        | eof =>
            simp only [afterRead_standing, finishRead_standing] at hrun
            split at hrun <;> exact absurd hrun (by simp)
        | failed => exact absurd hrun (by simp)
        | expired => exact absurd hrun (by simp)
        | dropped =>
            obtain rfl := (Prod.mk.inj hrun).2
            exact ⟨[[]], rfl, by simpa using hlf', by simpa using hacc'⟩
        | data chunk =>
            have hcopy := Buffer.copyAt_zero chunk.fits
            simp only [standing, Buffer.pad_nil, hcopy] at hrun
            obtain ⟨rs, htrace, hnone, hlen⟩ :=
              ih (acc ++ unread) chunk.bytes (trace ++ [Io.read chunk.bytes]) chunk.fits hacc' hlf'
                hrun
            refine ⟨chunk.bytes :: rs, ?_, ?_, ?_⟩
            · rw [htrace]
              simp
            · simpa using hnone
            · simpa using hlen
      · rw [hfeed] at hrun
        exact absurd hrun (by simp)

/-- The bytes a trace has put on the wire. -/
def written (trace : List Io) : Bytes :=
  (trace.map fun io => match io with
    | .read _ => []
    | .wrote bytes => bytes).flatten

/-- The bytes a trace has taken from the wire. -/
def arrived (trace : List Io) : Bytes :=
  (trace.map fun io => match io with
    | .read bytes => bytes
    | .wrote _ => []).flatten

theorem unreadBytes_standing (h : unread.length ≤ maxLineBytes) :
    (standing stream line unread clock trace).unreadBytes = unread :=
  Buffer.pad_take h

theorem written_append (a b : List Io) : written (a ++ b) = written a ++ written b := by
  simp [written]

theorem arrived_append (a b : List Io) : arrived (a ++ b) = arrived a ++ arrived b := by
  simp [arrived]

theorem written_reads (rs : List Bytes) : written (rs.map .read) = [] := by
  induction rs with
  | nil => rfl
  | cons bytes rs ih => exact ih

theorem arrived_reads (rs : List Bytes) : arrived (rs.map .read) = rs.flatten := by
  simp [arrived, Function.comp_def]

theorem written_wrote (bytes : Bytes) : written [.wrote bytes] = bytes := by simp [written]

theorem written_lines (lines : List Bytes) : written (lines.map .wrote) = lines.flatten := by
  simp [written, Function.comp_def]

theorem arrived_wrote (bytes : Bytes) : arrived [.wrote bytes] = [] := by simp [arrived]

/-- What a read may do, whatever the peer and the clock do. -/
structure ReadEffect (ch : Channel) (o : Outcome TransportError (Option Bytes)) (ch' : Channel) :
    Prop where
  standing : Standing ch'
  stream : ch'.stream.isSome = ch.stream.isSome
  trace : ∃ rs : List Bytes, ch'.trace = ch.trace ++ rs.map .read
  closed : ch.stream = none → (∃ e, o = .err e) ∧ ch'.trace = ch.trace
  safe : o ≠ .panic
  line : ∀ l, o = .ok (some l) → ∃ seg, Terminated lf seg ∧ seg.length ≤ maxLineBytes ∧
    ch'.line = complete seg ∧ l = stripTerminator seg ∧
    (∃ rs : List Bytes, ch'.trace = ch.trace ++ rs.map .read ∧
      ch.unreadBytes ++ rs.flatten = seg ++ ch'.unreadBytes) ∧ ch'.supply < ch.supply
  eof : o = .ok none → ch'.line = .new ∧ ch'.pending = 0 ∧
    ∃ rs : List Bytes, ch'.trace = ch.trace ++ rs.map .read ∧ ch.unreadBytes ++ rs.flatten = []

theorem ReadEffect.failed {ch ch' : Channel} {o : Outcome TransportError (Option Bytes)}
    (hstanding : Standing ch') (hstream : ch'.stream.isSome = ch.stream.isSome)
    (htrace : ∃ rs : List Bytes, ch'.trace = ch.trace ++ rs.map .read)
    (hclosed : ch.stream = none → (∃ e, o = .err e) ∧ ch'.trace = ch.trace)
    (hsafe : o ≠ .panic) (hfail : o.Failed) : ReadEffect ch o ch' :=
  ⟨hstanding, hstream, htrace, hclosed, hsafe, fun _ h => absurd h (hfail _),
    fun h => absurd h (hfail _)⟩

theorem checkDeadline_standing :
    checkDeadline (standing stream line unread clock trace) =
      (if clock.headD false then .err .timeout else .ok (),
        standing stream line unread clock.tail trace) := rfl

/-- A read in terms of `receive`. -/
theorem readLineOrEof_standing :
    readLineOrEof (standing stream line unread clock trace) =
      if clock.headD false then (.err .timeout, standing stream .new [] clock.tail trace)
      else
        match receive (standing stream (holding []) unread clock.tail trace) with
        | (.ok (), ch) => (.ok ch.line.line, ch)
        | (.err e, ch) => (.err e, ch.clear)
        | (.panic, ch) => (.panic, ch.clear)
        | (.dropped, ch) => (.dropped, ch.clear) := by
  have hstart : ({ standing stream line unread clock trace with
      line := (standing stream line unread clock trace).line.clear } : Channel) =
      standing stream (holding []) unread clock trace := by
    rw [holding_nil]
    rfl
  by_cases hlate : clock.headD false = true
  · simp only [readLineOrEof, bind, Action.bind, Action.onFailure, Action.modify, hstart,
      checkDeadline_standing, hlate, if_true, clear_eq_standing]
    rfl
  · simp only [readLineOrEof, bind, Action.bind, Action.onFailure, Action.modify, hstart,
      checkDeadline_standing, hlate, Bool.false_eq_true, if_false]
    rcases receive (standing stream (holding []) unread clock.tail trace) with ⟨o, ch⟩
    cases o <;> rfl

theorem readLineOrEof_effect {ch : Channel} (h : Standing ch) :
    ReadEffect ch (readLineOrEof ch).1 (readLineOrEof ch).2 := by
  obtain ⟨stream, line, unread, clock, trace, hunread, rfl⟩ := h
  rw [readLineOrEof_standing]
  by_cases hlate : clock.headD false = true
  · rw [if_pos hlate]
    exact .failed (standing_intro (Nat.zero_le _)) rfl ⟨[], by simp [standing]⟩
      (fun _ => ⟨⟨_, rfl⟩, rfl⟩) (by simp) (by simp)
  rw [if_neg hlate]
  cases stream with
  | none =>
      exact .failed (standing_clear _) rfl ⟨[], (List.append_nil _).symm⟩
        (fun _ => ⟨⟨.closed, rfl⟩, rfl⟩) (by simp [receive, standing])
        (by simp [receive, standing])
  | some stream =>
      obtain ⟨reads, writes⟩ := stream
      have hloop : Received writes clock.tail trace ([] ++ unread) reads
          (receive (standing (some ⟨reads, writes⟩) (holding []) unread clock.tail trace)) :=
        receiveLoop_any writes reads [] unread trace hunread (by decide) (by simp)
      obtain ⟨line', unread', reads', rs, hch, hlen, hvolume, hpanic, hok⟩ := hloop
      rcases hr : receive (standing (some ⟨reads, writes⟩) (holding []) unread clock.tail trace)
        with ⟨o, ch⟩
      rw [hr] at hch hpanic hok
      obtain rfl : ch = _ := hch
      cases o with
      | ok u =>
          refine ⟨standing_intro hlen, rfl, ⟨rs, rfl⟩, fun h => absurd h (by simp [standing]),
            by simp, ?_, ?_⟩
          · intro l hl
            rcases hok rfl with ⟨rfl, -, -⟩ | ⟨seg, hterm, hseg, rfl, hsplit⟩
            · exact absurd hl (by simp [standing, LineBuffer.line, LineBuffer.new])
            · have hl' : (complete seg).line = some l := by simpa [standing] using hl
              rw [line_complete hseg] at hl'
              refine ⟨seg, hterm, hseg, rfl, (Option.some.inj hl').symm, ⟨rs, rfl, ?_⟩, ?_⟩
              · rw [unreadBytes_standing hunread, unreadBytes_standing hlen]
                exact hsplit
              · -- the line itself is what the supply loses
                have hlength := congrArg List.length hsplit
                have hpos := hterm.length_pos
                simp only [List.nil_append, List.length_append] at hlength
                simp only [supply, unreadBytes_standing hunread, unreadBytes_standing hlen, standing_stream]
                omega
          · intro hl
            rcases hok rfl with ⟨rfl, rfl, hnone⟩ | ⟨seg, hterm, hseg, rfl, -⟩
            · refine ⟨rfl, rfl, rs, rfl, ?_⟩
              rw [unreadBytes_standing hunread]
              exact hnone
            · have : (complete seg).line = none := by simpa [standing] using hl
              rw [line_complete hseg] at this
              exact absurd this (by simp)
      | err e =>
          exact .failed (standing_clear _) rfl ⟨rs, by simp [clear, standing]⟩
            (fun h => absurd h (by simp [standing])) (by simp) (by simp)
      | panic => exact absurd rfl hpanic
      | dropped =>
          exact .failed (standing_clear _) rfl ⟨rs, by simp [clear, standing]⟩
            (fun h => absurd h (by simp [standing])) (by simp) (by simp)

/-- A whole line at hand is returned without asking the stream. -/
theorem readLine_buffered {ch : Channel} {seg rest : Bytes} (h : Standing ch)
    (hopen : ch.stream.isSome = true) (hclock : ch.clock.headD false = false)
    (hterm : Terminated lf seg) (hlen : seg.length ≤ maxLineBytes)
    (hsplit : ch.unreadBytes = seg ++ rest) :
    ∃ ch', readLine ch = (.ok (stripTerminator seg), ch') := by
  obtain ⟨stream, line, unread, clock, trace, hunread, rfl⟩ := h
  rw [unreadBytes_standing hunread] at hsplit
  obtain ⟨⟨reads, writes⟩, rfl⟩ := Option.isSome_iff_exists.mp hopen
  have hreceive : receive (standing (some ⟨reads, writes⟩) (holding []) unread clock.tail trace) =
      (.ok (), standing (some ⟨reads, writes⟩) (complete seg) rest clock.tail trace) := by
    show receiveLoop writes reads _ = _
    rw [receiveLoop]
    rcases @feedPending_cases (some ⟨reads, writes⟩) unread clock.tail trace [] hunread (by decide)
        (by simp) with ⟨seg', rest', hterm', -, hsplit', -, hfeed⟩ | ⟨hnone, -, -⟩ | ⟨hlong, -⟩
    · rw [List.nil_append, hsplit] at hsplit'
      obtain ⟨rfl, rfl⟩ := hterm.unique hterm' hsplit'
      rw [hfeed]
    · obtain ⟨body, -, hbody⟩ := hterm
      exact absurd (by simp [hsplit, hbody]) hnone
    · exact absurd hlen (Nat.not_le.mpr (hlong seg rest [] hterm (by simp [hsplit])))
  have hread : readLineOrEof (standing (some ⟨reads, writes⟩) line unread clock trace) =
      (.ok (some (stripTerminator seg)),
        standing (some ⟨reads, writes⟩) (complete seg) rest clock.tail trace) := by
    have hclock' : clock.headD false = false := hclock
    rw [readLineOrEof_standing, hclock', if_neg (by simp), hreceive]
    show ((.ok (complete seg).line, _) : Outcome TransportError (Option Bytes) × Channel) = _
    rw [line_complete hlen]
  exact ⟨_, by rw [readLine, Action.bind_ok hread]; rfl⟩

theorem readLineOrEof_dropped {ch ch' : Channel} (h : Standing ch)
    (hrun : readLineOrEof ch = (.dropped, ch')) :
    ∃ rs : List Bytes, ch'.trace = ch.trace ++ rs.map .read ∧ lf ∉ ch.unreadBytes ++ rs.flatten ∧
      (ch.unreadBytes ++ rs.flatten).length < maxLineBytes := by
  obtain ⟨stream, line, unread, clock, trace, hunread, rfl⟩ := h
  rw [readLineOrEof_standing] at hrun
  by_cases hlate : clock.headD false = true
  · rw [if_pos hlate] at hrun
    exact absurd hrun (by simp)
  rw [if_neg hlate] at hrun
  rcases hr : receive (standing stream (holding []) unread clock.tail trace) with ⟨o, ch⟩
  rw [hr] at hrun
  cases o with
  | dropped =>
      obtain rfl := (Prod.mk.inj hrun).2
      cases stream with
      | none => exact absurd hr (by simp [receive, standing])
      | some stream =>
          obtain ⟨rs, htrace, hnone, hlen⟩ := receiveLoop_dropped stream.writes stream.reads [] unread
            trace hunread (by decide) (by simp) hr
          refine ⟨rs, htrace, ?_, ?_⟩
          · rw [unreadBytes_standing hunread]
            exact hnone
          · rw [unreadBytes_standing hunread]
            exact hlen
  | _ => exact absurd hrun (by simp)

/-- The channel holds `line`, and the caller may overwrite it. -/
def Holds (ch : Channel) (line : Bytes) : Prop :=
  ∃ seg : Bytes, seg.length ≤ maxLineBytes ∧ ch.line = complete seg ∧ line = stripTerminator seg

/-- Overwriting the held line with one of its length. -/
theorem Holds.editLine {ch : Channel} {line content : Bytes} (h : Holds ch line)
    (hlen : content.length = line.length) : (ch.editLine content).receivedLine = some content := by
  obtain ⟨seg, hseg, hbuffer, rfl⟩ := h
  have hle : (stripTerminator seg).length ≤ seg.length := by
    rw [stripTerminator_eq_take]
    exact List.length_take_le' _ _
  have hready : (complete seg).ready = true ∧ content.length = (complete seg).contentLen :=
    ⟨rfl, hlen⟩
  obtain ⟨storage, hcopy, hbytes⟩ :=
    Buffer.copyAt_start (complete seg).storage content (by omega)
  have hedit : (complete seg).editLine content = { complete seg with storage := storage } := by
    rw [LineBuffer.editLine, if_pos hready, hcopy]
    rfl
  show (ch.line.editLine content).line = some content
  rw [hbuffer, hedit]
  show some (storage.bytes.take (stripTerminator seg).length) = some content
  rw [hbytes, ← hlen, List.take_left]

/-- `read_line`, whatever the peer and the clock do. -/
theorem readLine_effect {ch : Channel} (h : Standing ch) :
    Action.Post readLine ch fun o ch' => Standing ch' ∧ ch'.stream.isSome = ch.stream.isSome ∧
      ∀ line, o = .ok line → Holds ch' line ∧ ch'.supply < ch.supply := by
  have e := readLineOrEof_effect h
  apply Action.Post.bind (R := ReadEffect ch) e
  · intro line ch' e'
    refine ⟨e'.standing, e'.stream, ?_⟩
    intro l hl
    obtain rfl : line = some l := Outcome.okOr_eq_ok.mp hl
    obtain ⟨seg, -, hseg, hbuffer, hline, -, hsupply⟩ := e'.line l rfl
    exact ⟨⟨seg, hseg, hbuffer, hline⟩, hsupply⟩
  · intro o ch' ho e'
    exact ⟨e'.standing, e'.stream, fun l hl => absurd hl (ho.relabel l)⟩

/-- What became of the unread bytes and of those that came in, `rs`: one line was
cut off, or the caller went away before there was one. -/
structure Taken (ch : Channel) (rs : List Bytes) (o : Outcome TransportError Bytes)
    (ch' : Channel) : Prop where
  trace : ch'.trace = ch.trace ++ rs.map .read
  line : ∀ line, o = .ok line → ∃ seg, Terminated lf seg ∧ seg.length ≤ maxLineBytes ∧
    line = stripTerminator seg ∧ ch.unreadBytes ++ rs.flatten = seg ++ ch'.unreadBytes
  dropped : o = .dropped → lf ∉ ch.unreadBytes ++ rs.flatten ∧
    (ch.unreadBytes ++ rs.flatten).length < maxLineBytes

theorem readLine_taken {ch : Channel} (h : Standing ch) :
    Action.Post readLine ch fun o ch' => o ≠ .panic ∧ ∃ rs, Taken ch rs o ch' := by
  have e : ReadEffect ch (readLineOrEof ch).1 (readLineOrEof ch).2 := readLineOrEof_effect h
  apply Action.Post.intro
  intro o ch' hrun
  rcases hread : readLineOrEof ch with ⟨result, ch₁⟩
  rw [hread] at e
  obtain ⟨rs, htrace⟩ := e.trace
  cases result with
  | ok line =>
      rw [readLine, Action.bind_ok hread] at hrun
      obtain ⟨rfl, rfl⟩ := Prod.mk.inj hrun
      cases line with
      | none => exact ⟨by simp, rs, htrace, by simp, by simp⟩
      | some line =>
          obtain ⟨seg, hterm, hseg, -, rfl, ⟨rs', htrace', hsplit⟩, -⟩ := e.line line rfl
          refine ⟨by simp, rs', htrace', ?_, by simp⟩
          rintro _ ⟨⟩
          exact ⟨seg, hterm, hseg, rfl, hsplit⟩
  | err error =>
      rw [readLine, Action.bind_failed hread (by simp)] at hrun
      obtain ⟨rfl, rfl⟩ := Prod.mk.inj hrun
      exact ⟨by simp [Outcome.relabel], rs, htrace, by simp [Outcome.relabel],
        by simp [Outcome.relabel]⟩
  | panic => exact absurd rfl e.safe
  | dropped =>
      rw [readLine, Action.bind_failed hread (by simp)] at hrun
      obtain ⟨rfl, rfl⟩ := Prod.mk.inj hrun
      obtain ⟨rs', htrace', hnone, hlen⟩ := readLineOrEof_dropped h hread
      exact ⟨by simp [Outcome.relabel], rs', htrace', by simp [Outcome.relabel],
        fun _ => ⟨hnone, hlen⟩⟩

theorem Standing.editLine {ch : Channel} (h : Standing ch) (content : Bytes) :
    Standing (ch.editLine content) := by
  obtain ⟨stream, line, unread, clock, trace, hunread, rfl⟩ := h
  exact standing_intro hunread

/-- What a write of `bytes` may do. -/
structure WriteEffect (bytes : Bytes) (ch : Channel) (o : Outcome TransportError Unit)
    (ch' : Channel) : Prop where
  standing : Standing ch'
  stream : ch'.stream.isSome = ch.stream.isSome
  trace : ch'.trace = ch.trace ∨ ∃ n, ch'.trace = ch.trace ++ [.wrote (bytes.take n)]
  sent : o = .ok () → ch'.trace = ch.trace ++ [.wrote bytes] ∧ ch'.unreadBytes = ch.unreadBytes
  valid : ch'.trace ≠ ch.trace → validateWireLine bytes = .ok ()
  closed : ch.stream = none → (∃ e, o = .err e) ∧ ch'.trace = ch.trace
  safe : o ≠ .panic

theorem WriteEffect.failed {bytes : Bytes} {ch ch' : Channel}
    (hstanding : Standing ch') (hstream : ch'.stream.isSome = ch.stream.isSome)
    (htrace : ch'.trace = ch.trace) (e : TransportError) : WriteEffect bytes ch (.err e) ch' :=
  ⟨hstanding, hstream, Or.inl htrace, by simp, fun h => absurd htrace h,
    fun _ => ⟨⟨e, rfl⟩, htrace⟩, by simp⟩

theorem validateWireLine_cases (bytes : Bytes) :
    (validateWireLine bytes = .ok () ∧ bytes.length ≤ maxLineBytes) ∨
    ∃ e, validateWireLine bytes = .err e := by
  unfold validateWireLine
  by_cases hlen : bytes.length > maxLineBytes
  · exact Or.inr ⟨_, if_pos hlen⟩
  rw [if_neg hlen]
  by_cases hlf : bytes.getLast? ≠ some lf
  · exact Or.inr ⟨_, if_pos hlf⟩
  rw [if_neg hlf]
  by_cases hbody : (stripCr bytes.dropLast).any isForbidden = true
  · exact Or.inr ⟨_, if_pos hbody⟩
  · exact Or.inl ⟨if_neg hbody, by omega⟩

theorem writeLine_standing (bytes : Bytes) :
    writeLine bytes (standing stream line unread clock trace) =
      match validateWireLine bytes with
      | .ok () =>
          if clock.headD false then (.err .timeout, standing stream .new [] clock.tail trace)
          else
            match stream with
            | none => (.err .closed, standing none .new [] clock.tail trace)
            | some s =>
                match s.writes.headD .done with
                | .done => (.ok (), standing (some ⟨s.reads, s.writes.tail⟩) line unread clock.tail
                    (trace ++ [.wrote bytes]))
                | .failed n => (.err .io, standing (some ⟨s.reads, s.writes.tail⟩) .new [] clock.tail
                    (trace ++ [.wrote (bytes.take n)]))
                | .expired n => (.err .timeout, standing (some ⟨s.reads, s.writes.tail⟩) .new []
                    clock.tail (trace ++ [.wrote (bytes.take n)]))
                | .dropped n => (.dropped, standing (some ⟨s.reads, s.writes.tail⟩) .new []
                    clock.tail (trace ++ [.wrote (bytes.take n)]))
      | .err e => (.err e, standing stream .new [] clock trace)
      | .panic => (.panic, standing stream .new [] clock trace)
      | .dropped => (.dropped, standing stream .new [] clock trace) := by
  rcases validateWireLine_cases bytes with ⟨hvalid, hlen⟩ | ⟨e, hinvalid⟩
  · simp only [hvalid]
    by_cases hlate : clock.headD false = true
    · simp only [writeLine, bind, Action.bind, Action.onFailure, Action.lift, hvalid,
        checkDeadline_standing, hlate, if_true, clear_eq_standing]
      rfl
    · have hcopy := Buffer.copyAt_zero hlen
      have hslice : (Buffer.pad maxLineBytes bytes).slice 0 bytes.length = some bytes := by
        rw [Buffer.slice_pad (Nat.zero_le _) (Nat.le_refl _) hlen]
        simp
      cases stream with
      | none =>
          simp only [writeLine, bind, Action.bind, Action.onFailure, Action.lift, hvalid,
            checkDeadline_standing, hlate, Bool.false_eq_true, if_false, clear_eq_standing, Action.get,
            standing_stream, Outcome.okOr_none]
          rfl
      | some s =>
          simp only [writeLine, bind, Action.bind, Action.onFailure, Action.lift, hvalid,
            checkDeadline_standing, hlate, Bool.false_eq_true, if_false, clear_eq_standing, Action.get,
            standing_stream, standing_write, Outcome.okOr_some, hcopy, hslice, Outcome.index_some,
            Action.modify, transmit]
          cases s.writes.headD .done with
          | done =>
              simp only [List.take_length]
              rfl
          | failed n => rfl
          | expired n => rfl
          | dropped n => rfl
  · simp only [hinvalid, writeLine, bind, Action.bind, Action.onFailure, Action.lift,
      clear_eq_standing]
    rfl

theorem writeLine_effect {ch : Channel} (h : Standing ch) (bytes : Bytes) :
    WriteEffect bytes ch (writeLine bytes ch).1 (writeLine bytes ch).2 := by
  obtain ⟨stream, line, unread, clock, trace, hunread, rfl⟩ := h
  rw [writeLine_standing]
  have hwiped : ∀ {stream clock trace}, Standing (standing stream .new [] clock trace) :=
    standing_intro (Nat.zero_le _)
  rcases validateWireLine_cases bytes with ⟨hvalid, -⟩ | ⟨e, hinvalid⟩
  · simp only [hvalid]
    by_cases hlate : clock.headD false = true
    · simp only [hlate, if_true]
      apply WriteEffect.failed hwiped
      · rfl
      · rfl
    simp only [hlate, Bool.false_eq_true, if_false]
    cases stream with
    | none =>
        apply WriteEffect.failed hwiped
        · rfl
        · rfl
    | some s =>
        have hopen : ∀ {P : Prop}, (standing (some s) line unread clock trace).stream = none → P :=
          fun h => absurd h (by simp [standing])
        -- the write was attempted: whatever was accepted is a prefix of the line
        have htried : ∀ {o : Outcome TransportError Unit} {n : ℕ}, o ≠ .ok () → o ≠ .panic →
            WriteEffect bytes (standing (some s) line unread clock trace) o
              (standing (some ⟨s.reads, s.writes.tail⟩) .new [] clock.tail
                (trace ++ [.wrote (bytes.take n)])) := by
          intro o n hok hpanic
          exact ⟨hwiped, rfl, Or.inr ⟨n, rfl⟩, fun h => absurd h hok, fun _ => hvalid, hopen,
            hpanic⟩
        simp only
        cases s.writes.headD .done with
        | done =>
            refine ⟨standing_intro hunread, rfl, Or.inr ⟨bytes.length, ?_⟩, fun _ => ⟨rfl, rfl⟩,
              fun _ => hvalid, hopen, by simp⟩
            rw [List.take_length]
            rfl
        | failed n => exact htried (by simp) (by simp)
        | expired n => exact htried (by simp) (by simp)
        | dropped n => exact htried (by simp) (by simp)
  · simp only [hinvalid]
    apply WriteEffect.failed hwiped
    · rfl
    · rfl

/-! ## §4  Over a reliable stream -/

/-- Only data, then the end of the stream. -/
def Reliable (reads : List ReadStep) : Prop := ∀ step ∈ reads, ∃ chunk, step = .data chunk

/-- What a reliable script has yet to deliver. -/
def incoming : List ReadStep → Bytes
  | [] => []
  | .data chunk :: rest => chunk.bytes ++ incoming rest
  | _ :: _ => []

theorem reliable_chunks (chunks : List Chunk) : Reliable (chunks.map .data) := by
  intro step hstep
  obtain ⟨chunk, -, rfl⟩ := List.mem_map.mp hstep
  exact ⟨chunk, rfl⟩

theorem incoming_chunks (chunks : List Chunk) :
    incoming (chunks.map .data) = (chunks.map Chunk.bytes).flatten := by
  induction chunks with
  | nil => rfl
  | cons chunk chunks ih => simp only [List.map_cons, incoming, ih, List.flatten_cons]

theorem Reliable.head {step : ReadStep} {rest : List ReadStep} (h : Reliable (step :: rest)) :
    ∃ chunk, step = .data chunk := h step List.mem_cons_self

theorem Reliable.tail {step : ReadStep} {rest : List ReadStep} (h : Reliable (step :: rest)) :
    Reliable rest := fun s hs => h s (List.mem_cons_of_mem _ hs)

theorem Reliable.eq_nil {reads : List ReadStep} (h : Reliable reads) (hnil : incoming reads = []) :
    reads = [] := by
  cases reads with
  | nil => rfl
  | cons step rest =>
      obtain ⟨chunk, rfl⟩ := h.head
      rw [incoming, List.append_eq_nil_iff] at hnil
      exact absurd hnil.1 chunk.nonempty

/-- The loop finds the first line of what it holds, has buffered and will get. -/
theorem receiveLoop_line (writes : List WriteStep) (clock : List Bool) {seg rest : Bytes}
    (hterm : Terminated lf seg) (hseg : seg.length ≤ maxLineBytes) (reads : List ReadStep) :
    ∀ (acc unread : Bytes) (trace : List Io), Reliable reads → unread.length ≤ maxLineBytes →
      acc.length < maxLineBytes → lf ∉ acc → acc ++ unread ++ incoming reads = seg ++ rest →
      ∃ (unread' : Bytes) (reads' : List ReadStep) (rs : List Bytes),
        receiveLoop writes reads
            (standing (some ⟨reads, writes⟩) (holding acc) unread clock trace) =
          (.ok (), standing (some ⟨reads', writes⟩) (complete seg) unread' clock
            (trace ++ rs.map .read)) ∧
        Reliable reads' ∧ unread'.length ≤ maxLineBytes ∧ unread' ++ incoming reads' = rest ∧
        incoming reads = rs.flatten ++ incoming reads' := by
  induction reads with
  | nil =>
      intro acc unread trace hreads hunread hacc hlf hsplit
      rw [receiveLoop]
      rcases feedPending_cases hunread hacc hlf with
        ⟨seg', rest', hterm', -, hsplit', hrest, hfeed⟩ | ⟨hlf', -, -⟩ | ⟨hlong, -⟩
      · rw [incoming, List.append_nil, hsplit'] at hsplit
        obtain ⟨rfl, rfl⟩ := hterm'.unique hterm hsplit
        rw [hfeed]
        exact ⟨rest', [], [], by simp, hreads, hrest, by simp [incoming], rfl⟩
      · obtain ⟨body, -, rfl⟩ := hterm
        rw [incoming, List.append_nil] at hsplit
        exact absurd (by rw [hsplit]; simp) hlf'
      · exact absurd (hlong seg rest (incoming []) hterm hsplit) (by omega)
  | cons step later ih =>
      intro acc unread trace hreads hunread hacc hlf hsplit
      obtain ⟨chunk, rfl⟩ := hreads.head
      rw [receiveLoop]
      rcases feedPending_cases hunread hacc hlf with
        ⟨seg', rest', hterm', -, hsplit', hrest, hfeed⟩ | ⟨hlf', hacc', hfeed⟩ | ⟨hlong, -⟩
      · -- a terminated prefix is unique, so this is the line
        rw [hsplit', List.append_assoc] at hsplit
        obtain ⟨rfl, rfl⟩ := hterm'.unique hterm hsplit
        rw [hfeed]
        exact ⟨rest', .data chunk :: later, [], by simp, hreads, hrest, rfl, rfl⟩
      · rw [hfeed]
        have hcopy := Buffer.copyAt_zero chunk.fits
        obtain ⟨unread', reads', rs, hrun, hreads', hunread', hrest', hlater⟩ :=
          ih (acc ++ unread) chunk.bytes (trace ++ [.read chunk.bytes]) hreads.tail chunk.fits
            hacc' hlf' (by rw [List.append_assoc (acc ++ unread)]; exact hsplit)
        refine ⟨unread', reads', chunk.bytes :: rs, ?_, hreads', hunread', hrest', ?_⟩
        swap
        · rw [incoming, hlater, List.flatten_cons, List.append_assoc]
        have htrace : trace ++ (chunk.bytes :: rs).map Io.read =
            trace ++ [.read chunk.bytes] ++ rs.map .read := by simp
        simp only [standing, Buffer.pad_nil, hcopy]
        rw [htrace]
        exact hrun
      · exact absurd (hlong seg rest (incoming _) hterm hsplit) (by omega)

/-- Without a line that fits, the loop fails, or finds that nothing is left. -/
theorem receiveLoop_none (writes : List WriteStep) (clock : List Bool) (reads : List ReadStep) :
    ∀ (acc unread : Bytes) (trace : List Io), Reliable reads → unread.length ≤ maxLineBytes →
      acc.length < maxLineBytes → lf ∉ acc →
      (∀ seg rest, Terminated lf seg → acc ++ unread ++ incoming reads = seg ++ rest →
        maxLineBytes < seg.length) →
      ∃ o ch, receiveLoop writes reads
          (standing (some ⟨reads, writes⟩) (holding acc) unread clock trace) = (o, ch) ∧
        ((∃ e, o = .err e) ∨ o = .ok () ∧ ch.line.line = none) := by
  induction reads with
  | nil =>
      intro acc unread trace hreads hunread hacc hlf hlong
      rw [receiveLoop]
      rcases feedPending_cases hunread hacc hlf with
        ⟨seg, rest, hterm, hseg, hsplit, -, -⟩ | ⟨-, -, hfeed⟩ | ⟨-, hfeed⟩
      · have hover := hlong seg rest hterm (by rw [incoming, List.append_nil, hsplit])
        exact absurd hseg (Nat.not_le.mpr hover)
      · rw [hfeed]
        simp only [afterRead_standing, finishRead_standing]
        refine ⟨_, _, rfl, ?_⟩
        by_cases hnil : acc ++ unread = []
        · rw [if_pos hnil, hnil, holding_nil]
          exact Or.inr ⟨rfl, rfl⟩
        · rw [if_neg hnil]
          exact Or.inl ⟨_, rfl⟩
      · rw [hfeed]
        exact ⟨_, _, rfl, Or.inl ⟨_, rfl⟩⟩
  | cons step later ih =>
      intro acc unread trace hreads hunread hacc hlf hlong
      obtain ⟨chunk, rfl⟩ := hreads.head
      rw [receiveLoop]
      rcases feedPending_cases hunread hacc hlf with
        ⟨seg, rest, hterm, hseg, hsplit, -, -⟩ | ⟨hlf', hacc', hfeed⟩ | ⟨-, hfeed⟩
      · have hover := hlong seg (rest ++ incoming (.data chunk :: later)) hterm (by
          rw [hsplit, List.append_assoc])
        exact absurd hseg (Nat.not_le.mpr hover)
      · rw [hfeed]
        have hcopy := Buffer.copyAt_zero chunk.fits
        have hrun := ih (acc ++ unread) chunk.bytes (trace ++ [.read chunk.bytes]) hreads.tail
          chunk.fits hacc' hlf' (by
            intro seg rest hterm hsplit
            refine hlong seg rest hterm ?_
            rw [← hsplit, incoming]
            simp only [List.append_assoc])
        simp only [standing, Buffer.pad_nil, hcopy]
        exact hrun
      · rw [hfeed]
        exact ⟨_, _, rfl, Or.inl ⟨_, rfl⟩⟩

theorem readLineOrEof_of_receive {ch' : Channel}
    (h : receive (standing stream (holding []) unread [] trace) = (.ok (), ch')) :
    readLineOrEof (standing stream line unread [] trace) = (.ok ch'.line.line, ch') := by
  rw [readLineOrEof_standing, if_neg (by simp), List.tail_nil, h]

/-- A read over a reliable stream returns its first line and leaves the rest. -/
theorem readLineOrEof_line {writes : List WriteStep} {reads : List ReadStep} {seg rest : Bytes}
    (hterm : Terminated lf seg) (hseg : seg.length ≤ maxLineBytes) (hreads : Reliable reads)
    (hunread : unread.length ≤ maxLineBytes) (hsplit : unread ++ incoming reads = seg ++ rest) :
    ∃ (unread' : Bytes) (reads' : List ReadStep) (rs : List Bytes),
      readLineOrEof (standing (some ⟨reads, writes⟩) line unread [] trace) =
        (.ok (some (stripTerminator seg)), standing (some ⟨reads', writes⟩) (complete seg) unread'
          [] (trace ++ rs.map .read)) ∧
      Reliable reads' ∧ unread'.length ≤ maxLineBytes ∧ unread' ++ incoming reads' = rest ∧
      incoming reads = rs.flatten ++ incoming reads' := by
  obtain ⟨unread', reads', rs, hrun, hreads', hunread', hrest, hlater⟩ :=
    receiveLoop_line writes [] hterm hseg reads [] unread trace hreads hunread (by decide)
      (by simp) hsplit
  refine ⟨unread', reads', rs, ?_, hreads', hunread', hrest, hlater⟩
  have hreceive : receive (standing (some ⟨reads, writes⟩) (holding []) unread [] trace) =
      (.ok (), standing (some ⟨reads', writes⟩) (complete seg) unread' []
        (trace ++ rs.map .read)) := hrun
  rw [readLineOrEof_of_receive hreceive]
  simp only [standing, line_complete hseg]

/-- Without a line that fits, there is no line to be read. -/
theorem readLineOrEof_none {writes : List WriteStep} {reads : List ReadStep}
    (hreads : Reliable reads) (hunread : unread.length ≤ maxLineBytes)
    (hlong : ∀ seg rest, Terminated lf seg → unread ++ incoming reads = seg ++ rest →
      maxLineBytes < seg.length) :
    ∃ o ch, readLineOrEof (standing (some ⟨reads, writes⟩) line unread [] trace) = (o, ch) ∧
      ((∃ e, o = .err e) ∨ o = .ok none) := by
  obtain ⟨o, ch, hrun, hend⟩ := receiveLoop_none writes [] reads [] unread trace hreads hunread
    (by decide) (by simp) hlong
  have hreceive : receive (standing (some ⟨reads, writes⟩) (holding []) unread [] trace) = (o, ch) :=
    hrun
  rcases hend with ⟨e, rfl⟩ | ⟨rfl, hnone⟩
  · refine ⟨.err e, ch.clear, ?_, Or.inl ⟨e, rfl⟩⟩
    rw [readLineOrEof_standing, if_neg (by simp), List.tail_nil, hreceive]
  · refine ⟨.ok none, ch, ?_, Or.inr rfl⟩
    rw [readLineOrEof_of_receive hreceive, hnone]

/-- At the end of a reliable stream a read returns `None` and changes nothing
that is left to read. -/
theorem readLineOrEof_eof {writes : List WriteStep} {reads : List ReadStep}
    (hreads : Reliable reads) (hnil : unread ++ incoming reads = []) :
    readLineOrEof (standing (some ⟨reads, writes⟩) line unread [] trace) =
      (.ok none, standing (some ⟨[], writes⟩) .new [] [] (trace ++ [.read []])) := by
  rw [List.append_eq_nil_iff] at hnil
  obtain ⟨rfl, hincoming⟩ := hnil
  obtain rfl := hreads.eq_nil hincoming
  have hreceive : receive (standing (some ⟨[], writes⟩) (holding []) [] [] trace) =
      (.ok (), standing (some ⟨[], writes⟩) (holding []) [] [] (trace ++ [.read []])) := rfl
  rw [readLineOrEof_of_receive hreceive, holding_nil]
  rfl

/-- A valid line is written whole when the peer accepts it. -/
theorem writeLine_done {reads : List ReadStep} {bytes : Bytes}
    (hvalid : validateWireLine bytes = .ok ()) :
    writeLine bytes (standing (some ⟨reads, []⟩) line unread [] trace) =
      (.ok (), standing (some ⟨reads, []⟩) line unread [] (trace ++ [.wrote bytes])) := by
  rw [writeLine_standing, hvalid]
  rfl

end Channel

end Assuan
