import Assuan.Protocol.Frame

/-!
# The states of a line buffer

A buffer collects a line, holds one, or has failed. Every call takes these states
to each other, in whatever order the calls come and whatever the holder of a line
writes over it; each state determines the storage up to its last byte.
-/

namespace Assuan

namespace LineBuffer

/-! ## §1  Calls -/

/-- `line_mut`: the bytes that it lends. -/
def lineMut (buffer : LineBuffer) : Outcome ProtocolError (Option Bytes) :=
  match buffer.line with
  | none => .ok none
  | some line => do
      let lent ← Outcome.index (buffer.storage.slice 0 line.length)
      .ok (some lent)

/-- What the owner of a buffer may do with it. -/
inductive LineCall : Type where
  | feed (input : Bytes)
  | overwrite (content : Bytes)
  | clear
deriving DecidableEq

def call (buffer : LineBuffer) : LineCall → LineBuffer
  | .feed input => (buffer.feed input).2
  | .overwrite content => buffer.editLine content
  | .clear => buffer.clear

def callAll (calls : List LineCall) (buffer : LineBuffer) : LineBuffer := calls.foldl call buffer

/-! ## §2  The three states -/

/-- A line and its terminator, however the line was overwritten. -/
def finished (content terminator : Bytes) : LineBuffer :=
  ⟨Buffer.pad _ (content ++ terminator), (content ++ terminator).length, true, content.length, false⟩

def IsTerminator (terminator : Bytes) : Prop := terminator = [lf] ∨ terminator = [cr, lf]

inductive Shape : LineBuffer → Prop where
  | collecting (acc : Bytes) (hlen : acc.length < maxLineBytes) : Shape (holding acc)
  | finished (content terminator : Bytes) (hterm : IsTerminator terminator)
      (hlen : (content ++ terminator).length ≤ maxLineBytes) : Shape (finished content terminator)
  | failed : Shape overlong

/-- A segment is its line and one of the two terminators. -/
theorem stripTerminator_append (body : Bytes) : ∃ terminator, IsTerminator terminator ∧
    body ++ [lf] = stripTerminator (body ++ [lf]) ++ terminator := by
  rw [stripTerminator_snoc]
  split
  · next hcr =>
      refine ⟨[cr, lf], Or.inr rfl, ?_⟩
      obtain ⟨front, rfl⟩ := List.getLast?_eq_some_iff.mp hcr
      simp
  · exact ⟨[lf], Or.inl rfl, rfl⟩

/-- What `feed` leaves at the end of a line. -/
theorem complete_eq_finished (body : Bytes) :
    ∃ content terminator, IsTerminator terminator ∧ content ++ terminator = body ++ [lf] ∧
      complete (body ++ [lf]) = finished content terminator := by
  obtain ⟨terminator, hterm, hseg⟩ := stripTerminator_append body
  refine ⟨stripTerminator (body ++ [lf]), terminator, hterm, hseg.symm, ?_⟩
  rw [finished, ← hseg]
  rfl

section Finished

variable {content terminator : Bytes}

theorem line_finished (h : (content ++ terminator).length ≤ maxLineBytes) :
    (finished content terminator).line = some content := by
  have hbytes : (Buffer.pad maxLineBytes (content ++ terminator)).bytes.take content.length =
      content := by
    rw [Buffer.pad_bytes h, List.append_assoc, List.take_left]
  rw [line, finished, if_pos rfl, hbytes]

theorem lineMut_finished (h : (content ++ terminator).length ≤ maxLineBytes) :
    (finished content terminator).lineMut = .ok (some content) := by
  have hslice : (finished content terminator).storage.slice 0 content.length = some content := by
    rw [finished, Buffer.slice_pad (Nat.zero_le _) (by simp) h, List.take_left, List.drop_zero]
  rw [lineMut, line_finished h]
  simp only [hslice, Outcome.index_some, Outcome.ok_bind]

/-- The holder of the line can change its bytes and nothing else. -/
theorem editLine_finished (h : (content ++ terminator).length ≤ maxLineBytes) {bytes : Bytes}
    (hlen : bytes.length = content.length) :
    (finished content terminator).editLine bytes = finished bytes terminator := by
  have hcopy : (finished content terminator).storage.copyAt 0 bytes =
      some (Buffer.pad maxLineBytes (bytes ++ terminator)) := Buffer.overwrite_pad hlen h
  rw [editLine, if_pos ⟨rfl, hlen⟩, hcopy, Option.getD_some, finished, finished]
  simp only [List.length_append, hlen]

/-- Bytes of another length cannot be written through the slice. -/
theorem editLine_cases (h : (content ++ terminator).length ≤ maxLineBytes) (bytes : Bytes) :
    ∃ line, (line ++ terminator).length = (content ++ terminator).length ∧
      (finished content terminator).editLine bytes = finished line terminator := by
  by_cases hsame : bytes.length = content.length
  · refine ⟨bytes, ?_, editLine_finished h hsame⟩
    rw [List.length_append, List.length_append, hsame]
  · refine ⟨content, rfl, ?_⟩
    rw [editLine, if_neg (fun hedit => hsame hedit.2)]

end Finished

/-! ## §3  Calls keep the states -/

section Shapes

variable {buffer : LineBuffer}

theorem shape_new : Shape new := by
  rw [← holding_nil]
  exact .collecting [] (by decide)

theorem Shape.feed (h : Shape buffer) (input : Bytes) :
    Shape (buffer.feed input).2 ∧ (buffer.feed input).1 ≠ .panic := by
  cases h with
  | collecting acc hlen =>
      rw [feed_holding input hlen]
      cases hseg : firstSegment lf input with
      | none =>
          by_cases hfit : acc.length + input.length < maxLineBytes
          · simp only [if_pos hfit]
            exact ⟨.collecting _ (by rwa [List.length_append]), by simp⟩
          · simp only [if_neg hfit]
            exact ⟨.failed, by simp⟩
      | some split =>
          obtain ⟨seg, rest⟩ := split
          obtain ⟨⟨body, -, rfl⟩, -⟩ := firstSegment_eq_some hseg
          by_cases hfit : acc.length + (body ++ [lf]).length ≤ maxLineBytes
          · simp only [if_pos hfit]
            obtain ⟨content, terminator, hterm, hcontent, hcomplete⟩ :=
              complete_eq_finished (acc ++ body)
            rw [← List.append_assoc, hcomplete]
            refine ⟨.finished content terminator hterm ?_, by simp⟩
            rw [hcontent, List.append_assoc, List.length_append]
            exact hfit
          · simp only [if_neg hfit]
            exact ⟨.failed, by simp⟩
  | finished content terminator hterm hlen =>
      exact ⟨.finished content terminator hterm hlen, by simp [LineBuffer.feed, LineBuffer.finished]⟩
  | failed => exact ⟨.failed, by simp [LineBuffer.feed, overlong]⟩

theorem Shape.editLine (h : Shape buffer) (content : Bytes) : Shape (buffer.editLine content) := by
  cases h with
  | collecting acc hlen =>
      rw [LineBuffer.editLine, if_neg (by simp [holding])]
      exact .collecting acc hlen
  | finished line terminator hterm hlen =>
      obtain ⟨line', hsame, hedit⟩ := editLine_cases hlen content
      rw [hedit]
      exact .finished line' terminator hterm (hsame ▸ hlen)
  | failed =>
      rw [LineBuffer.editLine, if_neg (by simp [overlong, new])]
      exact .failed

theorem Shape.call (h : Shape buffer) (c : LineCall) : Shape (buffer.call c) := by
  cases c with
  | feed input => exact (h.feed input).1
  | overwrite content => exact h.editLine content
  | clear => exact shape_new

theorem Shape.callAll (h : Shape buffer) (calls : List LineCall) : Shape (callAll calls buffer) := by
  induction calls generalizing buffer with
  | nil => exact h
  | cons c calls ih => exact ih (h.call c)

/-! ### Until the next clear -/

/-- A finished line stays: its bytes may change, its length and its terminator do not. -/
theorem finished_callAll {content terminator : Bytes}
    (hlen : (content ++ terminator).length ≤ maxLineBytes) {calls : List LineCall}
    (hcalls : .clear ∉ calls) :
    ∃ line, (line ++ terminator).length = (content ++ terminator).length ∧
      LineBuffer.callAll calls (finished content terminator) = finished line terminator := by
  induction calls generalizing content with
  | nil => exact ⟨content, rfl, rfl⟩
  | cons c calls ih =>
      rw [List.mem_cons, not_or] at hcalls
      obtain ⟨hc, hcalls⟩ := hcalls
      cases c with
      | feed input => exact ih hlen hcalls
      | overwrite bytes =>
          obtain ⟨line, hsame, hedit⟩ := editLine_cases hlen bytes
          obtain ⟨last, hlast, hrun⟩ := ih (hsame ▸ hlen) hcalls
          refine ⟨last, hlast.trans hsame, ?_⟩
          rw [← hrun, ← hedit]
          rfl
      | clear => exact absurd rfl hc

theorem overlong_callAll {calls : List LineCall} (hcalls : .clear ∉ calls) :
    LineBuffer.callAll calls overlong = overlong := by
  induction calls with
  | nil => rfl
  | cons c calls ih =>
      rw [List.mem_cons, not_or] at hcalls
      cases c with
      | feed input => exact ih hcalls.2
      | overwrite bytes => exact ih hcalls.2
      | clear => exact absurd rfl hcalls.1

end Shapes

/-! ## §4  The invariant -/

/-- The line that `line` and `line_mut` lend. -/
def Lends (buffer : LineBuffer) (line : Bytes) : Prop :=
  buffer.line = some line ∧ buffer.lineMut = .ok (some line)

/-- A buffer with a line: nothing but `clear` gets past it. -/
structure HasLine (buffer : LineBuffer) : Prop where
  terminator : buffer.len - buffer.contentLen = 1 ∨ buffer.len - buffer.contentLen = 2
  fed : ∀ input, buffer.feed input = (.ok 0, buffer)
  overwritten : ∀ content, content.length = buffer.contentLen → (buffer.editLine content).Lends content
  later : ∀ calls, .clear ∉ calls → ∃ line, (callAll calls buffer).Lends line ∧
    line.length = buffer.contentLen ∧ (callAll calls buffer).len = buffer.len ∧
    ∀ input, (callAll calls buffer).feed input = (.ok 0, callAll calls buffer)

/-- A buffer that has failed: it is wiped, and nothing but `clear` changes it. -/
structure HasFailed (buffer : LineBuffer) : Prop where
  wiped : ∀ b ∈ buffer.storage.bytes, b = 0
  fed : ∀ input, buffer.feed input = (.err .lineTooLong, buffer)
  later : ∀ calls, .clear ∉ calls → callAll calls buffer = buffer

/-- The representation invariant. -/
structure Represented (buffer : LineBuffer) : Prop where
  content_le : buffer.contentLen ≤ buffer.len
  len_le : buffer.len ≤ maxLineBytes
  room : buffer.ready = false → buffer.failed = false → buffer.len < maxLineBytes
  stored : ∀ input, (buffer.feed input).1 ≠ .panic
  zeros : ∀ b ∈ buffer.storage.bytes.drop buffer.len, b = 0
  whenReady : buffer.ready = true → HasLine buffer
  whenFailed : buffer.failed = true → HasFailed buffer

theorem zero_behind_pad {n : ℕ} {bs : Bytes} (h : bs.length ≤ n) :
    ∀ b ∈ (Buffer.pad n bs).bytes.drop bs.length, b = 0 := by
  intro b hb
  rw [Buffer.pad_bytes h, List.drop_left] at hb
  exact List.eq_of_mem_replicate hb

section States

variable {content terminator : Bytes}

theorem lends_finished (h : (content ++ terminator).length ≤ maxLineBytes) :
    (finished content terminator).Lends content := ⟨line_finished h, lineMut_finished h⟩

theorem feed_finished (content terminator input : Bytes) :
    (finished content terminator).feed input = (.ok 0, finished content terminator) := rfl

theorem hasLine_finished (hterm : IsTerminator terminator)
    (h : (content ++ terminator).length ≤ maxLineBytes) : HasLine (finished content terminator) where
  terminator := by
    show (content ++ terminator).length - content.length = 1 ∨
      (content ++ terminator).length - content.length = 2
    rw [List.length_append, Nat.add_sub_cancel_left]
    rcases hterm with rfl | rfl
    · exact Or.inl rfl
    · exact Or.inr rfl
  fed := feed_finished content terminator
  overwritten := by
    intro bytes hsame
    have hlen : bytes.length = content.length := hsame
    rw [editLine_finished h hlen]
    apply lends_finished
    rwa [List.length_append, hlen, ← List.length_append]
  later := by
    intro calls hcalls
    obtain ⟨line, hsame, hrun⟩ := finished_callAll h hcalls
    have hlen : line.length = content.length := by
      rw [List.length_append, List.length_append] at hsame
      exact Nat.add_right_cancel hsame
    rw [hrun]
    exact ⟨line, lends_finished (hsame ▸ h), hlen, hsame, feed_finished line terminator⟩

theorem hasFailed_overlong : HasFailed overlong where
  wiped := fun _ hb => List.eq_of_mem_replicate hb
  fed := fun _ => rfl
  later := fun _ hcalls => overlong_callAll hcalls

theorem Shape.represented {buffer : LineBuffer} (h : Shape buffer) : Represented buffer := by
  have hstored := fun input => (h.feed input).2
  cases h with
  | collecting acc hlen =>
      exact ⟨Nat.zero_le _, Nat.le_of_lt hlen, fun _ _ => hlen, hstored,
        zero_behind_pad (Nat.le_of_lt hlen), fun hready => absurd hready (by simp [holding]),
        fun hfailed => absurd hfailed (by simp [holding])⟩
  | finished content terminator hterm hlen =>
      refine ⟨?_, hlen, fun hready => absurd hready (by simp [LineBuffer.finished]), hstored,
        zero_behind_pad hlen, fun _ => hasLine_finished hterm hlen,
        fun hfailed => absurd hfailed (by simp [LineBuffer.finished])⟩
      show content.length ≤ (content ++ terminator).length
      rw [List.length_append]
      exact Nat.le_add_right _ _
  | failed =>
      exact ⟨Nat.le_refl _, Nat.zero_le _, fun _ _ => by decide, hstored,
        fun b hb => hasFailed_overlong.wiped b (List.mem_of_mem_drop hb),
        fun hready => absurd hready (by simp [overlong, new]), fun _ => hasFailed_overlong⟩

end States

/-- **The invariant of a line buffer.** Whatever is fed, written over the line and
cleared, in any order, the lengths are in order and no store is out of range; a line
keeps its length and is not fed past; a failure is wiped and sticks; and all behind
`len` is zero. -/
theorem callAll_represented (calls : List LineCall) : Represented (callAll calls new) :=
  (shape_new.callAll calls).represented

end LineBuffer

end Assuan
