import Assuan.Protocol.LineStates
import Assuan.Transport.ChannelSpec

/-!
# What the buffers retain

Channels carry passphrases, so their buffers must not keep what is no longer
needed. The three arrays of a channel are shifted, overwritten and reused by every
operation, and each wait is a place where the operation can end. After any sequence
of operations the arrays hold the current line with its terminator, the bytes read
ahead of it, and zeros.
-/

namespace Assuan

open LineBuffer

/-! ## §1 The line storage -/

/-- A wiped storage, or a line with its terminator and zeros behind it. -/
inductive LineBuffer.Kept : LineBuffer → Prop where
  | new : Kept .new
  | line (content terminator : Bytes) (hterm : terminator = [lf] ∨ terminator = [cr, lf])
      (hlen : (content ++ terminator).length ≤ maxLineBytes) :
      Kept ⟨Buffer.pad _ (content ++ terminator), (content ++ terminator).length, true,
        content.length, false⟩

theorem complete_kept {seg : Bytes} (h : Terminated lf seg) (hlen : seg.length ≤ maxLineBytes) :
    Kept (complete seg) := by
  obtain ⟨body, -, rfl⟩ := h
  obtain ⟨content, terminator, hterm, hcontent, hcomplete⟩ := complete_eq_finished body
  rw [hcomplete]
  rw [← hcontent] at hlen
  exact .line content terminator hterm hlen

/-- The holder of the line can change its bytes and nothing else. -/
theorem LineBuffer.Kept.editLine {buffer : LineBuffer} (h : Kept buffer) (content : Bytes) :
    Kept (buffer.editLine content) := by
  cases h with
  | new =>
      rw [LineBuffer.editLine, if_neg (by simp [LineBuffer.new])]
      exact .new
  | line line terminator hterm hlen =>
      obtain ⟨line', hsame, hedit⟩ := editLine_cases hlen content
      show Kept ((finished line terminator).editLine content)
      rw [hedit]
      exact .line line' terminator hterm (hsame ▸ hlen)

namespace Channel

/-! ## §2 Operations -/

/-- What the owner of a channel may do with it. -/
inductive ChannelCall : Type where
  | readLine
  | readLineOrEof
  | editLine (content : Bytes)
  | writeLine (bytes : Bytes)
  | close
deriving DecidableEq, Repr

/-- One operation; the peer, the clock and the scripted drops decide how it ends. -/
def perform : ChannelCall → Action Channel TransportError Unit
  | .readLine => do
      let _ ← readLine
  | .readLineOrEof => do
      let _ ← readLineOrEof
  | .editLine content => Action.modify (·.editLine content)
  | .writeLine bytes => writeLine bytes
  | .close => Action.modify close

/-- The channel after a sequence of operations. -/
def performAll (ops : List ChannelCall) (ch : Channel) : Channel :=
  ops.foldl (fun ch op => (perform op ch).2) ch

/-- Nothing but unread bytes and the current line. -/
structure Tidied (ch : Channel) : Prop where
  standing : Standing ch
  line : Kept ch.line

/-- Every array is zero, and no line is held. -/
structure Blank (ch : Channel) : Prop where
  line : ∀ b ∈ ch.line.storage.bytes, b = 0
  ahead : ∀ b ∈ ch.ahead.bytes, b = 0
  write : ∀ b ∈ ch.write.bytes, b = 0
  pending : ch.pending = 0
  received : ch.receivedLine = none

/-- The arrays hold the current line with its terminator, the unread bytes, and zeros. -/
structure Wiped (ch : Channel) : Prop where
  write : ∀ b ∈ ch.write.bytes, b = 0
  pending : ch.pending ≤ maxLineBytes
  ahead : ∀ b ∈ ch.ahead.bytes.drop ch.pending, b = 0
  line : ∀ l, ch.receivedLine = some l → ∃ terminator zeros : Bytes,
    (terminator = [lf] ∨ terminator = [cr, lf]) ∧
    ch.line.storage.bytes = l ++ terminator ++ zeros ∧ ∀ b ∈ zeros, b = 0
  noLine : ch.receivedLine = none → ∀ b ∈ ch.line.storage.bytes, b = 0

theorem zero_of_mem_replicate {n : ℕ} : ∀ b ∈ List.replicate n (0 : UInt8), b = 0 :=
  fun _ => List.eq_of_mem_replicate

theorem Tidied.wiped {ch : Channel} (h : Tidied ch) : Wiped ch := by
  obtain ⟨⟨stream, line, unread, clock, trace, hunread, rfl⟩, hkept⟩ := h
  refine ⟨zero_of_mem_replicate, hunread, ?_, ?_, ?_⟩
  · show ∀ b ∈ (Buffer.pad maxLineBytes unread).bytes.drop unread.length, b = 0
    rw [Buffer.pad_bytes hunread, List.drop_left]
    exact zero_of_mem_replicate
  · intro l hl
    cases hkept with
    | new => exact absurd hl (by simp [receivedLine, Channel.standing, LineBuffer.line])
    | line content terminator hterm hlen =>
        refine ⟨terminator, List.replicate (maxLineBytes - (content ++ terminator).length) 0,
          hterm, ?_, zero_of_mem_replicate⟩
        have hcontent : (Buffer.pad maxLineBytes (content ++ terminator)).bytes.take
            content.length = l := Option.some.inj hl
        have hbytes := Buffer.pad_bytes hlen
        rw [hbytes, List.append_assoc, List.take_left] at hcontent
        rw [← hcontent]
        exact hbytes
  · intro hnone
    cases hkept with
    | new => exact zero_of_mem_replicate
    | line content terminator hterm hlen =>
        exact absurd hnone (by simp [receivedLine, Channel.standing, LineBuffer.line])

theorem tidied_clear (ch : Channel) : Tidied ch.clear := ⟨standing_clear ch, .new⟩

theorem blank_clear (ch : Channel) : Blank ch.clear :=
  ⟨zero_of_mem_replicate, zero_of_mem_replicate, zero_of_mem_replicate, rfl, rfl⟩

/-! ## §3 Every operation wipes -/

/-- How an operation may end. -/
def Cleaned (o : Outcome TransportError Unit) (ch : Channel) : Prop :=
  o ≠ .panic ∧ Tidied ch ∧ (o.Failed → Blank ch)

theorem cleaned_ok {ch : Channel} (h : Tidied ch) : Cleaned (.ok ()) ch :=
  ⟨by simp, h, fun ho => absurd ho (by simp)⟩

/-- The guard of a read clears the channel unless the read succeeds. -/
theorem readLineOrEof_failed (ch : Channel) : Action.Post readLineOrEof ch fun o ch' =>
    o.Failed → ∃ before : Channel, ch' = before.clear := by
  apply Action.Post.bind (R := fun o ch' => o.Failed → ∃ before : Channel, ch' = before.clear)
  · apply Action.Post.onFailure (R := fun _ _ => True)
    · exact Action.Post.intro fun _ _ _ => trivial
    · exact fun a ch' _ ho => absurd ho (by simp)
    · exact fun o ch' _ _ _ => ⟨ch', rfl⟩
  · exact fun a ch' _ ho => absurd ho (Outcome.not_failed_ok _)
  · exact fun o ch' ho hR _ => hR ho

theorem readLineOrEof_cleaned {ch : Channel} (h : Tidied ch) :
    Action.Post readLineOrEof ch fun o ch' => o ≠ .panic ∧ Tidied ch' ∧
      (o = .ok none → Blank ch') ∧ (o.Failed → Blank ch') := by
  apply Action.Post.intro
  intro o ch' hrun
  have e := readLineOrEof_effect h.standing
  have hfailed := (readLineOrEof_failed ch).elim hrun
  rw [hrun] at e
  refine ⟨e.safe, ?_, ?_, ?_⟩
  · rcases o.ok_or_failed with ⟨line, rfl⟩ | ho
    · refine ⟨e.standing, ?_⟩
      cases line with
      | none =>
          rw [(e.eof rfl).1]
          exact .new
      | some l =>
          obtain ⟨seg, hterm, hlen, hline, -⟩ := e.line l rfl
          rw [hline]
          exact complete_kept hterm hlen
    · obtain ⟨before, rfl⟩ := hfailed ho
      exact tidied_clear before
  · rintro rfl
    -- at the end of the stream nothing is held and nothing is unread
    obtain ⟨hline, hpending, -⟩ := e.eof rfl
    obtain ⟨stream, line, unread, clock, trace, -, rfl⟩ := e.standing
    obtain rfl : line = .new := hline
    obtain rfl : unread = [] := List.eq_nil_of_length_eq_zero hpending
    have hblank := blank_clear (standing stream .new [] clock trace)
    rwa [clear_eq_standing] at hblank
  · intro ho
    obtain ⟨before, rfl⟩ := hfailed ho
    exact blank_clear before

theorem readLine_cleaned {ch : Channel} (h : Tidied ch) :
    Action.Post readLine ch fun o ch' => o ≠ .panic ∧ Tidied ch' ∧ (o.Failed → Blank ch') := by
  apply Action.Post.bind (readLineOrEof_cleaned h)
  · rintro line ch' ⟨-, htidied, heof, -⟩
    cases line with
    | none => exact ⟨by simp, htidied, fun _ => heof rfl⟩
    | some l => exact ⟨by simp, htidied, fun ho => absurd ho (by simp)⟩
  · rintro o ch' ho ⟨hpanic, htidied, -, hblank⟩
    exact ⟨ho.relabel_ne_panic hpanic, htidied, fun _ => hblank ho⟩

/-- The guard of a write does the same. -/
theorem writeLine_failed (ch : Channel) (bytes : Bytes) :
    Action.Post (writeLine bytes) ch fun o ch' =>
      o.Failed → ∃ before : Channel, ch' = before.clear := by
  apply Action.Post.onFailure (R := fun _ _ => True)
  · exact Action.Post.intro fun _ _ _ => trivial
  · exact fun a ch' _ ho => absurd ho (Outcome.not_failed_ok _)
  · exact fun o ch' _ _ _ => ⟨ch', rfl⟩

/-- A successful write leaves the held line alone. -/
theorem writeLine_line {ch : Channel} (h : Standing ch) (bytes : Bytes)
    (hok : (writeLine bytes ch).1 = .ok ()) : (writeLine bytes ch).2.line = ch.line := by
  obtain ⟨stream, line, unread, clock, trace, hunread, rfl⟩ := h
  rw [writeLine_standing] at hok ⊢
  rcases validateWireLine_cases bytes with ⟨hvalid, -⟩ | ⟨e, hinvalid⟩
  · simp only [hvalid] at hok ⊢
    by_cases hlate : clock.headD false = true
    · exact absurd hok (by simp only [hlate, if_true]; simp)
    simp only [hlate, Bool.false_eq_true, if_false] at hok ⊢
    cases stream with
    | none => exact absurd hok (by simp)
    | some s =>
        simp only at hok ⊢
        cases hw : s.writes.headD .done with
        | done => rfl
        | failed n => rw [hw] at hok; exact absurd hok (by simp)
        | expired n => rw [hw] at hok; exact absurd hok (by simp)
        | dropped n => rw [hw] at hok; exact absurd hok (by simp)
  · simp only [hinvalid] at hok
    exact absurd hok (by simp)

theorem writeLine_cleaned {ch : Channel} (h : Tidied ch) (bytes : Bytes) :
    Action.Post (writeLine bytes) ch Cleaned := by
  apply Action.Post.intro
  intro o ch' hrun
  have e := writeLine_effect h.standing bytes
  have hline := writeLine_line h.standing bytes
  have hfailed := (writeLine_failed ch bytes).elim hrun
  rw [hrun] at e hline
  rcases o.ok_or_failed with ⟨u, rfl⟩ | ho
  · refine ⟨e.safe, ⟨e.standing, ?_⟩, fun ho => absurd ho (by simp)⟩
    rw [show ch'.line = ch.line from hline rfl]
    exact h.line
  · obtain ⟨before, rfl⟩ := hfailed ho
    exact ⟨e.safe, tidied_clear before, fun _ => blank_clear before⟩

theorem blank_close (ch : Channel) : Blank ch.close :=
  ⟨zero_of_mem_replicate, zero_of_mem_replicate, zero_of_mem_replicate, rfl, rfl⟩

theorem perform_cleaned {ch : Channel} (h : Tidied ch) (op : ChannelCall) :
    Action.Post (perform op) ch Cleaned := by
  cases op with
  | readLine =>
      apply Action.Post.bind (readLine_cleaned h)
      · exact fun _ ch' hc => cleaned_ok hc.2.1
      · exact fun o ch' ho hc => ⟨ho.relabel_ne_panic hc.1, hc.2.1, fun _ => hc.2.2 ho⟩
  | readLineOrEof =>
      apply Action.Post.bind (readLineOrEof_cleaned h)
      · exact fun _ ch' hc => cleaned_ok hc.2.1
      · exact fun o ch' ho hc => ⟨ho.relabel_ne_panic hc.1, hc.2.1, fun _ => hc.2.2.2 ho⟩
  | editLine content =>
      exact cleaned_ok ⟨h.standing.editLine content, h.line.editLine content⟩
  | writeLine bytes => exact writeLine_cleaned h bytes
  | close => exact cleaned_ok ⟨standing_close ch, .new⟩

theorem performAll_tidied (ops : List ChannelCall) {ch : Channel} (h : Tidied ch) :
    Tidied (performAll ops ch) := by
  induction ops generalizing ch with
  | nil => exact h
  | cons op ops ih => exact ih (perform_cleaned h op).2.1

/-- **The buffers of a channel retain nothing.** Whatever the stream, the clock and
the drops, and after any operations, one more operation stays inside the arrays and
leaves only the current line and unread bytes in them; one that fails or is dropped,
and a close, leaves zeros. -/
theorem buffers_wiped (stream : Stream) (clock : List Bool) (ops : List ChannelCall)
    (op : ChannelCall) :
    let before := performAll ops (new stream clock)
    let ended := perform op before
    Wiped before ∧ ended.1 ≠ .panic ∧ Wiped ended.2 ∧
      ((∀ u, ended.1 ≠ .ok u) ∨ op = .close → Blank ended.2) := by
  intro before ended
  have hbefore : Tidied before :=
    performAll_tidied ops ⟨standing_new stream clock, .new⟩
  obtain ⟨hpanic, htidied, hblank⟩ := perform_cleaned hbefore op
  refine ⟨hbefore.wiped, hpanic, htidied.wiped, ?_⟩
  rintro (hfailed | rfl)
  · exact hblank hfailed
  · exact blank_close before

end Channel

end Assuan
