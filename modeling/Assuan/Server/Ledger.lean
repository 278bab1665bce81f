import Assuan.Server.Context
import Assuan.Transport.ChannelSpec

/-!
# The books of a session

`Said` describes the bytes written since some point: whole lines, none of them a
final response, and at most one torn line at the end. `Heard` describes the
bytes read: the lines consumed so far, whose commands are exactly those already
opened. A channel whose books are in order is `Tidy`; after a failed operation
they are `Loose`, and closing the channel settles them, since a torn line is
then the last thing on the wire.
-/

namespace Assuan

open Channel LineBuffer

/-! ## §1  Lines on the wire -/

/-- A line, with its terminator, that reads as `OK` or `ERR`. -/
def isFinalLine (seg : Bytes) : Bool :=
  match parseServerLine (stripTerminator seg) with
  | .ok (.ok _) => true
  | .ok (.err _ _) => true
  | _ => false

def isCommandLine (line : Bytes) : Bool := requestKind line = .ok .command

/-- The command lines among the segments of a stream. -/
def commandLines (segs : List Bytes) : List Bytes :=
  (segs.map stripTerminator).filter isCommandLine

/-- A whole line that is not final. -/
def Progress (seg : Bytes) : Prop := Terminated lf seg ∧ isFinalLine seg = false

theorem isFinalLine_response {line : ServerLine} (hv : FieldsValid line)
    (hc : isCleanLine (responseBody line) = true) :
    isFinalLine (responseBody line ++ [lf]) = (line.kind = .ok ∨ line.kind = .err : Bool) := by
  rw [isFinalLine, stripTerminator_clean hc, parseServerLine_responseBody hv hc]
  cases line <;> rfl

theorem progress_response {line : ServerLine} (hv : FieldsValid line)
    (hc : isCleanLine (responseBody line) = true) (hok : line.kind ≠ .ok)
    (herr : line.kind ≠ .err) : Progress (responseBody line ++ [lf]) := by
  refine ⟨terminated_of_clean hc, ?_⟩
  rw [isFinalLine_response hv hc]
  simp [hok, herr]

theorem progress_dataLine (piece : Bytes) : Progress (dataLine piece) := by
  have hclean := dataLine_body_clean piece
  have hvalid : FieldsValid (.data (escapeBytes piece)) := by
    show validateEncodedData (escapeBytes piece) = .ok ()
    rw [validateEncodedData_eq, checkEscapes_eq, decodeRef_escapeBytes]
    rfl
  exact progress_response hvalid hclean (by simp [ServerLine.kind]) (by simp [ServerLine.kind])

theorem commandLines_append (a b : List Bytes) :
    commandLines (a ++ b) = commandLines a ++ commandLines b := by
  simp [commandLines]

theorem commandLines_singleton (seg : Bytes) :
    commandLines [seg] =
      if isCommandLine (stripTerminator seg) then [stripTerminator seg] else [] := by
  by_cases h : isCommandLine (stripTerminator seg) = true
  · simp [commandLines, h]
  · simp [commandLines, h]

/-! ## §2  Book-keeping -/

/-- After the traffic `before` only lines of progress were written, and then
perhaps a torn one; none is torn while `live` holds. -/
def Said (live : Prop) (before : List Io) (ch : Channel) : Prop :=
  ∃ (since : List Io) (lines : List Bytes) (rest : Bytes), ch.trace = before ++ since ∧
    written since = lines.flatten ++ rest ∧ (∀ line ∈ lines, Progress line) ∧ lf ∉ rest ∧
    (live → rest = [])

/-- The bytes read so far are consumed lines and what is still ahead. The opened
commands are commands of the consumed lines, in their order; while `live` holds
they are all of them, and what is ahead is in the channel. -/
def Heard (live : Prop) (opened : List Bytes) (ch : Channel) : Prop :=
  ∃ (consumed : List Bytes) (ahead : Bytes), (∀ seg ∈ consumed, Terminated lf seg) ∧
    arrived ch.trace = consumed.flatten ++ ahead ∧ opened <+: commandLines consumed ∧
    (live → ahead = ch.unreadBytes ∧ opened = commandLines consumed)

/-- Both, with nothing torn and nothing lost as long as the stream is open. -/
structure Tidy (before : List Io) (opened : List Bytes) (ch : Channel) : Prop where
  standing : Standing ch
  said : Said (ch.stream.isSome = true) before ch
  heard : Heard (ch.stream.isSome = true) opened ch

/-- What is left of it when an operation has failed. -/
structure Loose (before : List Io) (opened : List Bytes) (ch : Channel) : Prop where
  said : Said False before ch
  heard : Heard False opened ch

section Books

variable {live live' : Prop} {before : List Io} {opened : List Bytes} {ch ch' : Channel}

theorem Said.weaken (h : Said live before ch) (himp : live' → live) : Said live' before ch := by
  obtain ⟨since, lines, rest, htrace, hwritten, hlines, hrest, hlive⟩ := h
  exact ⟨since, lines, rest, htrace, hwritten, hlines, hrest, fun h => hlive (himp h)⟩

theorem Heard.weaken (h : Heard live opened ch) (himp : live' → live) : Heard live' opened ch := by
  obtain ⟨consumed, ahead, hterm, harrived, hpre, hlive⟩ := h
  exact ⟨consumed, ahead, hterm, harrived, hpre, fun h => hlive (himp h)⟩

theorem Tidy.loose (h : Tidy before opened ch) : Loose before opened ch :=
  ⟨h.said.weaken False.elim, h.heard.weaken False.elim⟩

/-- Closing the channel settles the books. -/
theorem Loose.close (h : Loose before opened ch) : Tidy before opened ch.close := by
  refine ⟨standing_close ch, ?_, ?_⟩
  · obtain ⟨since, lines, rest, htrace, hwritten, hlines, hrest, -⟩ := h.said
    refine ⟨since, lines, rest, htrace, hwritten, hlines, hrest, ?_⟩
    intro hopen
    exact absurd hopen (by simp [Channel.close])
  · obtain ⟨consumed, ahead, hterm, harrived, hpre, -⟩ := h.heard
    refine ⟨consumed, ahead, hterm, harrived, hpre, ?_⟩
    intro hopen
    exact absurd hopen (by simp [Channel.close])

/-- Reads do not change what was said. -/
theorem Said.reads (h : Said live before ch) {rs : List Bytes}
    (htrace : ch'.trace = ch.trace ++ rs.map .read) : Said live before ch' := by
  obtain ⟨since, lines, rest, hbefore, hwritten, hlines, hrest, hlive⟩ := h
  refine ⟨since ++ rs.map .read, lines, rest, ?_, ?_, hlines, hrest, hlive⟩
  · rw [htrace, hbefore, List.append_assoc]
  · rw [written_append, written_reads, List.append_nil, hwritten]

/-- One more whole line. -/
theorem Said.line (h : Said True before ch) {line : Bytes} (hline : Progress line)
    (htrace : ch'.trace = ch.trace ++ [.wrote line]) : Said True before ch' := by
  obtain ⟨since, lines, rest, hbefore, hwritten, hlines, -, hlive⟩ := h
  obtain rfl : rest = [] := hlive trivial
  refine ⟨since ++ [.wrote line], lines ++ [line], [], ?_, ?_, ?_, by simp, fun _ => rfl⟩
  · rw [htrace, hbefore, List.append_assoc]
  · rw [written_append, hwritten, written_wrote]
    simp
  · intro l hl
    rcases List.mem_append.mp hl with hl | hl
    · exact hlines l hl
    · rw [List.mem_singleton.mp hl]
      exact hline

/-- A torn line is a line that is cut somewhere: whole, or without its LF. -/
theorem take_terminated {seg : Bytes} (h : Terminated lf seg) (n : ℕ) :
    seg.take n = seg ∨ lf ∉ seg.take n := by
  obtain ⟨body, hbody, rfl⟩ := h
  rcases Nat.lt_or_ge body.length n with hn | hn
  · left
    apply List.take_of_length_le
    simpa using hn
  · right
    rw [List.take_append_of_le_length hn]
    intro hmem
    exact hbody (List.mem_of_mem_take hmem)

/-- Part of one more line. -/
theorem Said.torn (h : Said True before ch) {line : Bytes} {n : ℕ} (hline : Progress line)
    (htrace : ch'.trace = ch.trace ++ [.wrote (line.take n)]) : Said False before ch' := by
  rcases take_terminated hline.1 n with hwhole | htorn
  · rw [hwhole] at htrace
    exact (h.line hline htrace).weaken False.elim
  · obtain ⟨since, lines, rest, hbefore, hwritten, hlines, -, hlive⟩ := h
    obtain rfl : rest = [] := hlive trivial
    refine ⟨since ++ [.wrote (line.take n)], lines, line.take n, ?_, ?_, hlines, htorn, False.elim⟩
    · rw [htrace, hbefore, List.append_assoc]
    · rw [written_append, hwritten, written_wrote, List.append_nil]

/-- Writes do not change what was heard. -/
theorem Heard.wrote (h : Heard live opened ch) {bytes : Bytes}
    (htrace : ch'.trace = ch.trace ++ [.wrote bytes]) (hkept : live → ch'.unreadBytes = ch.unreadBytes) :
    Heard live opened ch' := by
  obtain ⟨consumed, ahead, hterm, harrived, hpre, hlive⟩ := h
  refine ⟨consumed, ahead, hterm, ?_, hpre, ?_⟩
  · rw [htrace, arrived_append, arrived_wrote, List.append_nil, harrived]
  · intro h
    exact ⟨by rw [hkept h, (hlive h).1], (hlive h).2⟩

/-- Reads that end without a line lose at most what was ahead. -/
theorem Heard.reads (h : Heard live opened ch) {rs : List Bytes}
    (htrace : ch'.trace = ch.trace ++ rs.map .read) : Heard False opened ch' := by
  obtain ⟨consumed, ahead, hterm, harrived, hpre, -⟩ := h
  refine ⟨consumed, ahead ++ rs.flatten, hterm, ?_, hpre, False.elim⟩
  rw [htrace, arrived_append, arrived_reads, harrived, List.append_assoc]

/-- A line is consumed. If it is a command, the books are those of a session that
opens it. -/
theorem Heard.line (h : Heard True opened ch) {rs : List Bytes} {seg : Bytes}
    (htrace : ch'.trace = ch.trace ++ rs.map .read) (hterm : Terminated lf seg)
    (hsplit : ch.unreadBytes ++ rs.flatten = seg ++ ch'.unreadBytes) :
    Heard True (opened ++ commandLines [seg]) ch' := by
  obtain ⟨consumed, ahead, hall, harrived, hpre, hlive⟩ := h
  obtain ⟨rfl, rfl⟩ := hlive trivial
  refine ⟨consumed ++ [seg], ch'.unreadBytes, ?_, ?_, ?_, fun _ => ⟨rfl, ?_⟩⟩
  · intro s hs
    rcases List.mem_append.mp hs with hs | hs
    · exact hall s hs
    · rw [List.mem_singleton.mp hs]
      exact hterm
  · rw [htrace, arrived_append, arrived_reads, harrived, List.append_assoc, hsplit]
    simp
  · rw [commandLines_append]
  · rw [commandLines_append]

/-- The opened commands come first among the command lines that have arrived. -/
theorem Heard.first (h : Heard live opened ch) :
    opened <+: commandLines (splitAfter lf (arrived ch.trace)).1 := by
  obtain ⟨consumed, ahead, hterm, harrived, hpre, -⟩ := h
  rw [harrived, splitAfter_flatten _ hterm, commandLines_append]
  exact hpre.trans (List.prefix_append _ _)

theorem Heard.same (h : Heard live opened ch) (htrace : ch'.trace = ch.trace) :
    Heard False opened ch' := by
  obtain ⟨consumed, ahead, hterm, harrived, hpre, -⟩ := h
  exact ⟨consumed, ahead, hterm, by rw [htrace, harrived], hpre, False.elim⟩

theorem Loose.same (h : Loose before opened ch) (htrace : ch'.trace = ch.trace) :
    Loose before opened ch' := by
  refine ⟨?_, h.heard.same htrace⟩
  obtain ⟨since, lines, rest, hbefore, hwritten⟩ := h.said
  exact ⟨since, lines, rest, htrace.trans hbefore, hwritten⟩

/-! ### One read, one write -/

/-- The commands among one line. -/
def commandOf (line : Bytes) : List Bytes := if isCommandLine line then [line] else []

theorem Channel.ReadEffect.heard {o : Outcome TransportError (Option Bytes)}
    (e : ReadEffect ch o ch') (h : Heard (ch.stream.isSome = true) opened ch) :
    Heard False opened ch' ∧
      ∀ line, o = .ok (some line) → Heard True (opened ++ commandOf line) ch' ∧ Holds ch' line := by
  obtain ⟨rs, htrace⟩ := e.trace
  refine ⟨h.reads htrace, ?_⟩
  intro line hline
  obtain ⟨seg, hterm, hlen, hbuffer, rfl, ⟨rs', htrace', hsplit⟩, -⟩ := e.line line hline
  have hopen : ch.stream.isSome = true := by
    cases hstream : ch.stream with
    | none =>
        obtain ⟨⟨error, herr⟩, -⟩ := e.closed hstream
        rw [hline] at herr
        exact absurd herr (by simp)
    | some stream => rfl
  have hheard := (h.weaken fun _ => hopen).line htrace' hterm hsplit
  rw [commandLines_singleton] at hheard
  exact ⟨hheard, seg, hlen, hbuffer, rfl⟩

/-- At the end of the stream every command line that has arrived was opened. -/
theorem Channel.ReadEffect.exhausted (e : ReadEffect ch (.ok none) ch')
    (h : Heard (ch.stream.isSome = true) opened ch) :
    opened = commandLines (splitAfter lf (arrived ch'.trace)).1 := by
  have hopen : ch.stream.isSome = true := by
    cases hstream : ch.stream with
    | none =>
        obtain ⟨⟨error, herr⟩, -⟩ := e.closed hstream
        exact absurd herr (by simp)
    | some stream => rfl
  obtain ⟨-, -, rs, htrace, hnone⟩ := e.eof rfl
  obtain ⟨consumed, ahead, hterm, harrived, -, hlive⟩ := h
  obtain ⟨rfl, rfl⟩ := hlive hopen
  have hall : arrived ch'.trace = consumed.flatten ++ [] := by
    rw [htrace, arrived_append, arrived_reads, harrived, List.append_assoc, hnone]
  rw [hall, splitAfter_flatten _ hterm, commandLines_append]
  exact (List.append_nil _).symm

/-- A write of a line of progress. -/
theorem Tidy.writeLine (h : Tidy before opened ch) {line : Bytes} (hline : Progress line) :
    Action.Post (Channel.writeLine line) ch fun o ch' =>
      Loose before opened ch' ∧ (o = .ok () → Tidy before opened ch') := by
  have e := writeLine_effect h.standing line
  apply Action.Post.intro
  intro o ch' hrun
  rw [hrun] at e
  cases hstream : ch.stream with
  | none =>
      -- a closed channel refuses the line and stays as it was
      obtain ⟨⟨error, herr⟩, htrace⟩ := e.closed hstream
      exact ⟨h.loose.same htrace, fun hok => absurd (hok.symm.trans herr) (by simp)⟩
  | some stream =>
      have hsaid : Said True before ch := h.said.weaken fun _ => by simp [hstream]
      have hheard : Heard True opened ch := h.heard.weaken fun _ => by simp [hstream]
      constructor
      · rcases e.trace with htrace | ⟨n, htrace⟩
        · exact h.loose.same htrace
        · exact ⟨hsaid.torn hline htrace, (h.loose.heard).wrote htrace False.elim⟩
      · intro hok
        obtain ⟨htrace, hkept⟩ := e.sent hok
        exact ⟨e.standing, (hsaid.line hline htrace).weaken fun _ => trivial,
          (hheard.wrote htrace fun _ => hkept).weaken fun _ => trivial⟩

theorem Tidy.editLine (h : Tidy before opened ch) (content : Bytes) :
    Tidy before opened (ch.editLine content) :=
  ⟨h.standing.editLine content, h.said, h.heard⟩

end Books

end Assuan
