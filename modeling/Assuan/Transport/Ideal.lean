import Assuan.Protocol.RoundTrip
import Assuan.Transport.ChannelSpec

/-!
# Channels without faults

Two sessions are compared over a stream that delivers everything, in pieces of
any size, and on which no deadline passes. There every operation has one result,
and what is left to read determines the rest.
-/

namespace Assuan

namespace Channel

open LineBuffer

/-- No fault is to come, and `input` is what is left to read, in whatever part it
has been read ahead. -/
def Ideal (ch : Channel) (input : Bytes) : Prop :=
  ∃ reads line unread trace, ch = standing (some ⟨reads, []⟩) line unread [] trace ∧
    Reliable reads ∧ unread.length ≤ maxLineBytes ∧ unread ++ incoming reads = input

theorem ideal_new (chunks : List Chunk) :
    Ideal (new ⟨chunks.map .data, []⟩ []) (chunks.map Chunk.bytes).flatten :=
  ⟨_, _, [], _, new_eq_standing _ _, reliable_chunks chunks, Nat.zero_le _, incoming_chunks chunks⟩

section Faultless

variable {ch : Channel} {input : Bytes}

theorem Ideal.standing (h : Ideal ch input) : Standing ch := by
  obtain ⟨reads, line, unread, trace, rfl, -, hunread, -⟩ := h
  exact standing_intro hunread

theorem Ideal.editLine (h : Ideal ch input) (content : Bytes) :
    Ideal (ch.editLine content) input := by
  obtain ⟨reads, line, unread, trace, rfl, hreads, hunread, hinput⟩ := h
  exact ⟨reads, line.editLine content, unread, trace, rfl, hreads, hunread, hinput⟩

/-- The whole input can still be read. -/
theorem Ideal.supply (h : Ideal ch input) : ch.supply = input.length := by
  obtain ⟨reads, line, unread, trace, rfl, hreads, hunread, rfl⟩ := h
  have hvolume : ∀ reads, Reliable reads → volume reads = (incoming reads).length := by
    intro reads hreads
    induction reads with
    | nil => rfl
    | cons step rest ih =>
        obtain ⟨chunk, rfl⟩ := hreads.head
        rw [volume, incoming, List.length_append, ih hreads.tail]
  rw [Channel.supply, unreadBytes_standing hunread, List.length_append, ← hvolume reads hreads]
  rfl

/-! ## Writing -/

/-- A clean body within the limit, with its LF, is accepted. -/
theorem validateWireLine_clean {body : Bytes} (hclean : isCleanLine body = true)
    (hlen : body.length + 1 ≤ maxLineBytes) : validateWireLine (body ++ [lf]) = .ok () := by
  have hstrip : stripCr body = body := by
    rw [stripCr, if_neg]
    intro hcr
    exact (isCleanLine_iff.mp hclean cr (List.mem_of_getLast? hcr)).2.1 rfl
  have hany : body.any isForbidden = false := by simpa [isCleanLine] using hclean
  rw [validateWireLine, if_neg (by simp; omega), if_neg (by simp), List.dropLast_concat, hstrip,
    hany]
  rfl

theorem Ideal.writeLine (h : Ideal ch input) {bytes : Bytes}
    (hvalid : validateWireLine bytes = .ok ()) :
    ∃ ch', Channel.writeLine bytes ch = (.ok (), ch') ∧ Ideal ch' input ∧
      ch'.trace = ch.trace ++ [.wrote bytes] ∧ ch'.unreadBytes = ch.unreadBytes := by
  obtain ⟨reads, line, unread, trace, rfl, hreads, hunread, hinput⟩ := h
  refine ⟨_, writeLine_done hvalid, ⟨reads, line, unread, _, rfl, hreads, hunread, hinput⟩, rfl, ?_⟩
  rw [unreadBytes_standing hunread, unreadBytes_standing hunread]

/-! ## Reading -/

/-- From `ch` to `ch'` nothing was written, and of what was unread or came in the
bytes `seg` were taken. -/
def Advances (ch : Channel) (seg : Bytes) (ch' : Channel) : Prop :=
  ∃ rs : List Bytes, ch'.trace = ch.trace ++ rs.map .read ∧
    ch.unreadBytes ++ rs.flatten = seg ++ ch'.unreadBytes

theorem Advances.written {ch' : Channel} {seg : Bytes} (h : Advances ch seg ch') :
    written ch'.trace = written ch.trace := by
  obtain ⟨rs, htrace, -⟩ := h
  rw [htrace, written_append, written_reads, List.append_nil]

theorem Advances.trans {ch' ch'' : Channel} {seg seg' : Bytes} (h : Advances ch seg ch')
    (h' : Advances ch' seg' ch'') : Advances ch (seg ++ seg') ch'' := by
  obtain ⟨rs, htrace, hsplit⟩ := h
  obtain ⟨rs', htrace', hsplit'⟩ := h'
  refine ⟨rs ++ rs', ?_, ?_⟩
  · rw [htrace', htrace, List.map_append, List.append_assoc]
  · rw [List.flatten_append, ← List.append_assoc, hsplit, List.append_assoc, hsplit',
      List.append_assoc]

/-- The next line of the input is returned and held; nothing else is touched. -/
theorem Ideal.readSegment {seg rest : Bytes} (h : Ideal ch (seg ++ rest)) (hterm : Terminated lf seg)
    (hseg : seg.length ≤ maxLineBytes) :
    ∃ ch', Channel.readLine ch = (.ok (stripTerminator seg), ch') ∧ Ideal ch' rest ∧
      Holds ch' (stripTerminator seg) ∧ Advances ch seg ch' := by
  obtain ⟨reads, line, unread, trace, rfl, hreads, hunread, hinput⟩ := h
  obtain ⟨unread', reads', rs, hread, hreads', hunread', hrest, hlater⟩ :=
    @readLineOrEof_line line unread trace [] reads _ _ hterm hseg hreads hunread hinput
  have hrun : Channel.readLine (Channel.standing (some ⟨reads, []⟩) line unread [] trace) =
      (.ok (stripTerminator seg), Channel.standing (some ⟨reads', []⟩) (complete seg) unread' []
        (trace ++ rs.map .read)) := by
    rw [Channel.readLine, Action.bind_ok hread]
    rfl
  refine ⟨_, hrun, ⟨reads', _, unread', _, rfl, hreads', hunread', hrest⟩, ⟨seg, hseg, rfl, rfl⟩,
    rs, rfl, ?_⟩
  rw [unreadBytes_standing hunread, unreadBytes_standing hunread']
  -- what is still to come is the same on both sides
  rw [hlater, ← hrest, ← List.append_assoc, ← List.append_assoc] at hinput
  exact List.append_cancel_right hinput

theorem Ideal.readLine {body rest : Bytes} (h : Ideal ch (body ++ [lf] ++ rest))
    (hclean : isCleanLine body = true) (hlen : body.length + 1 ≤ maxLineBytes) :
    ∃ ch', Channel.readLine ch = (.ok body, ch') ∧ Ideal ch' rest ∧ Holds ch' body ∧
      Advances ch (body ++ [lf]) ch' := by
  have hread := h.readSegment (terminated_of_clean hclean) (by simpa using hlen)
  rwa [stripTerminator_clean hclean] at hread

/-- Without a line that fits, a read fails. -/
theorem Ideal.readLine_none (h : Ideal ch input)
    (hlong : ∀ seg rest, Terminated lf seg → input = seg ++ rest → maxLineBytes < seg.length) :
    ∃ e ch', Channel.readLine ch = (.err e, ch') := by
  obtain ⟨reads, line, unread, trace, rfl, hreads, hunread, rfl⟩ := h
  obtain ⟨o, ch', hread, ⟨e, rfl⟩ | rfl⟩ :=
    @readLineOrEof_none line unread trace [] reads hreads hunread hlong
  · refine ⟨e, ch', ?_⟩
    rw [Channel.readLine, Action.bind_failed hread (by simp)]
    rfl
  · refine ⟨.protocol .unexpectedEof, ch', ?_⟩
    rw [Channel.readLine, Action.bind_ok hread]
    rfl

theorem Holds.receivedLine {line : Bytes} (h : Holds ch line) : ch.receivedLine = some line := by
  obtain ⟨seg, hseg, hbuffer, rfl⟩ := h
  show ch.line.line = _
  rw [hbuffer, line_complete hseg]

end Faultless

end Channel

end Assuan
