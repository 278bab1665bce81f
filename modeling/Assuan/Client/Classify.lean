import Assuan.Client.Attribution
import Assuan.Transport.Wiping

/-!
# The fields of an event

Data is decoded inside the buffer it was received in, so `classify` cannot keep
the fields that the parser borrowed from the line. It keeps positions, and
`next_event` cuts the fields out again, from a line that may have been rewritten
in the meantime. What it cuts out is what was parsed. The guard of an inquiry
has a copy of its own, which outlives the line.
-/

namespace Assuan

open Channel LineBuffer SessionCore Assuan.Action

/-! ## §1  Classification -/

namespace ServerLine

/-- The keyword of a line that has one. -/
def keyword : ServerLine → Bytes
  | .status keyword _ => asBytes keyword
  | .inquire keyword _ => asBytes keyword
  | _ => []

/-- `decode_data_in_place` accepts the payload, if the line is data. -/
def Decodes (parsed : ServerLine) : Prop :=
  ∀ text, parsed = .data text → ∃ n, (decodeDataInPlace text).1 = .ok n

theorem decodes_iff {parsed : ServerLine} : parsed.Decodes ↔ parsed.content.isSome = true := by
  cases parsed with
  | data text =>
      have hexact : (∃ n, (decodeDataInPlace text).1 = .ok n) ↔ (decodeRef text).isSome = true := by
        rw [decodeDataInPlace_eq]
        cases decodeRef text with
        | none => simp
        | some decoded => simp
      constructor
      · intro h
        exact hexact.mp (h text rfl)
      · rintro h _ ⟨⟩
        exact hexact.mpr h
  | _ => simp [Decodes, content]

end ServerLine

/-- The positions are inside the held line and cut the parsed fields out of it. Data
is shown decoded. -/
structure Recovers (parsed : ServerLine) (received : Received) (held : Bytes) : Prop where
  kind : received.kind = parsed.kind
  code : received.code = parsed.code
  keyword : received.keyword.slice held = some parsed.keyword
  payload : ∃ content, parsed.content = some content ∧ received.payload.slice held = some content

/-- What `classify` does with a line, whatever the state of the machine. -/
structure Classified (line : Bytes) (core : SessionCore) (o : Outcome ClientError Received)
    (core' : SessionCore) : Prop where
  accepts : (∃ received, o = .ok received) ↔ ∃ parsed, parseServerLine line = .ok parsed ∧
    parsed.Decodes ∧ (core.machine.receive parsed.kind).1 = .ok ()
  unchanged : (¬ ∃ parsed, parseServerLine line = .ok parsed ∧ parsed.Decodes) →
    core'.machine = core.machine
  fields : ∀ received, o = .ok received → ∃ parsed held, parseServerLine line = .ok parsed ∧
    Rewritten core.channel line core'.channel held ∧
    (Holds core.channel line → core'.channel.receivedLine = some held) ∧
    Recovers parsed received held

section Classification

variable {line held : Bytes} {parsed : ServerLine} {received : Received} {core core' : SessionCore}

/-- A line without a keyword has an empty range for it. -/
theorem Presents.recovers (h : Presents parsed received held)
    (hkeyword : received.keyword = (locate line parsed).keyword) :
    Recovers parsed received held := by
  refine ⟨h.kind, h.code, ?_, h.payload⟩
  cases parsed with
  | status keyword args => exact h.keyword keyword args (Or.inl rfl)
  | inquire keyword args => exact h.keyword keyword args (Or.inr rfl)
  | _ =>
      rw [hkeyword]
      rfl

theorem ClassifyEnd.classified {o : Outcome ClientError Received}
    (h : ClassifyEnd line core o core') : Classified line core o core' := by
  cases h with
  | malformed e hparse =>
      have hnone : ¬ ∃ parsed, parseServerLine line = .ok parsed := by
        rintro ⟨parsed, hok⟩
        exact absurd (hparse.symm.trans hok) (by simp)
      refine ⟨⟨by simp, ?_⟩, fun _ => rfl, by simp⟩
      rintro ⟨parsed, hok, -⟩
      exact absurd ⟨parsed, hok⟩ hnone
  | undecodable parsed hparse hcontent =>
      refine ⟨⟨by simp, ?_⟩, fun _ => rfl, by simp⟩
      rintro ⟨parsed', hok, hdecodes, -⟩
      obtain rfl := Outcome.ok.inj (hparse.symm.trans hok)
      rw [ServerLine.decodes_iff, hcontent] at hdecodes
      exact absurd hdecodes (by simp)
  | unwanted parsed e ch held machine hparse hcontent hreceive hrewritten =>
      refine ⟨⟨by simp, ?_⟩, ?_, by simp⟩
      · rintro ⟨parsed', hok, -, haccepts⟩
        obtain rfl := Outcome.ok.inj (hparse.symm.trans hok)
        rw [hreceive] at haccepts
        exact absurd haccepts (by simp)
      · intro hnone
        exact absurd ⟨parsed, hparse, ServerLine.decodes_iff.mpr hcontent⟩ hnone
  | accepted parsed received ch held machine hparse hreceive hrewritten hpresents hkeyword =>
      have hdecodes := ServerLine.decodes_iff.mpr hpresents.content_isSome
      refine ⟨⟨fun _ => ⟨parsed, hparse, hdecodes, by rw [hreceive]⟩, fun _ => ⟨received, rfl⟩⟩,
        ?_, ?_⟩
      · intro hnone
        exact absurd ⟨parsed, hparse, hdecodes⟩ hnone
      · rintro _ ⟨⟩
        exact ⟨parsed, held, hparse, hrewritten, hrewritten.receivedLine,
          hpresents.recovers hkeyword⟩

end Classification

/-! ## §2  Reading up to an event -/

/-- From `core` to `core'` empty lines were passed over and the line `seg` was
taken. -/
structure Took (core core' : SessionCore) (seg : Bytes) (parsed : ServerLine) : Prop where
  terminated : Terminated lf seg
  fits : seg.length ≤ maxLineBytes
  parses : parseServerLine (stripTerminator seg) = .ok parsed
  bytes : ∃ rs blanks : List Bytes, core'.channel.trace = core.channel.trace ++ rs.map .read ∧
    core.channel.unreadBytes ++ rs.flatten = blanks.flatten ++ seg ++ core'.channel.unreadBytes ∧
    ∀ blank ∈ blanks, Terminated lf blank ∧ parseServerLine (stripTerminator blank) = .ok .empty

/-- What `readEvent` leaves to `makeEvent`. -/
structure Fetched (core : SessionCore) (received : Received) (core' : SessionCore) : Prop where
  line : ∃ seg parsed held, Took core core' seg parsed ∧ parsed.kind ≠ .empty ∧
    core'.channel.receivedLine = some held ∧ Presents parsed received held
  sensitivity : core'.sensitivity = core.sensitivity
  allocations : core'.allocations = core.allocations
  horizon : core'.horizon = core.horizon

section Events

variable {core core₁ core' : SessionCore} {received : Received} {seg : Bytes} {parsed : ServerLine}

theorem Took.of_takes {rs : List Bytes} (t : Takes core rs seg parsed received core')
    (htrace : core'.channel.trace = core.channel.trace ++ rs.map .read) :
    Took core core' seg parsed :=
  ⟨t.terminated, t.fits, t.parses, rs, [], htrace, t.split, by simp⟩

/-- An empty line before the others. -/
theorem Took.after_blank {rs : List Bytes} {blank : Bytes}
    (t : Takes core rs blank .empty received core₁)
    (htrace : core₁.channel.trace = core.channel.trace ++ rs.map .read)
    (h : Took core₁ core' seg parsed) : Took core core' seg parsed := by
  obtain ⟨rs', blanks, htrace', hsplit', hblanks⟩ := h.bytes
  refine ⟨h.terminated, h.fits, h.parses, rs ++ rs', blank :: blanks, ?_, ?_, ?_⟩
  · rw [htrace', htrace, List.map_append, List.append_assoc]
  · rw [List.flatten_append, ← List.append_assoc, t.split, List.append_assoc, hsplit',
      List.flatten_cons, List.append_assoc, List.append_assoc, List.append_assoc]
  · intro b hb
    rcases List.mem_cons.mp hb with rfl | hb
    · exact ⟨t.terminated, t.parses⟩
    · exact hblanks b hb

/-- The loop of `next_event`: each round takes a line, so the bytes at hand bound
the rounds. -/
theorem readEvent_fetched {fuel : ℕ} (hstanding : Standing core.channel)
    (hfuel : core.channel.supply < fuel) :
    Action.Post (Transaction.readEvent fuel) core fun o core' =>
      o ≠ .panic ∧ ∀ received, o = .ok received → Fetched core received core' := by
  induction fuel generalizing core with
  | zero => exact absurd hfuel (Nat.not_lt_zero _)
  | succ fuel ih =>
      rw [Transaction.readEvent]
      by_cases hlive : core.Poisoned
      · apply Action.Post.bind_failed hlive.read (by simp)
        simp [Outcome.relabel]
      apply Action.Post.bind (read_cases hstanding hlive)
      · rintro received core₁ ⟨rs, htrace, hend⟩
        cases hend with
        | took seg parsed t =>
            obtain ⟨held, hheld, hpresents⟩ := t.presents
            by_cases hempty : received.kind = .empty
            · rw [if_neg (by simpa using hempty)]
              obtain rfl : parsed = .empty := by
                rw [hpresents.kind] at hempty
                cases parsed with
                | empty => rfl
                | _ => exact absurd hempty (by simp [ServerLine.kind])
              apply Action.Post.mono (ih t.standing (by have := t.supply; omega))
              rintro o core' ⟨hpanic, hfetched⟩
              refine ⟨hpanic, ?_⟩
              rintro received' rfl
              obtain ⟨⟨seg', parsed', held', htook, hrest⟩, hsens, halloc, hhorizon⟩ :=
                hfetched received' rfl
              refine ⟨⟨seg', parsed', held', htook.after_blank t htrace, hrest⟩, ?_, ?_, ?_⟩
              · rw [hsens, t.rest]
              · rw [halloc, t.rest]
              · rw [hhorizon, t.rest]
            · rw [if_pos hempty]
              apply Action.Post.pure
              refine ⟨by simp, ?_⟩
              rintro _ ⟨⟩
              refine ⟨⟨seg, parsed, held, Took.of_takes t htrace, ?_, hheld, hpresents⟩, ?_, ?_, ?_⟩
              · rw [← hpresents.kind]
                exact hempty
              · rw [t.rest]
              · rw [t.rest]
              · rw [t.rest]
      · rintro o core₁ ho ⟨rs, -, hend⟩
        cases hend with
        | took seg parsed t => exact absurd ho (by simp)
        | refused e _ _ => simp [Outcome.relabel]
        | dropped _ _ _ _ => simp [Outcome.relabel]

/-! ### The error that is not reached -/

theorem avoids_check : Avoids .incomplete check := by
  intro core
  unfold check
  split <;> simp

theorem avoids_classify (line : Bytes) : Avoids .incomplete (classify line) := by
  intro core
  rcases hrun : classify line core with ⟨o, core'⟩
  cases (classify_ends line core).elim hrun with
  | malformed => simp
  | undecodable => simp
  | unwanted parsed e => split <;> simp
  | accepted => simp

theorem avoids_read : Avoids .incomplete SessionCore.read := by
  unfold SessionCore.read
  refine avoids_check.bind ?_
  intro _
  refine (avoids_modify _).bind ?_
  intro _
  refine Avoids.bind (Avoids.onError ?_) ?_
  · exact (avoids_mapErr _ (by simp)).bind avoids_classify
  · intro received
    refine (avoids_modify _).bind ?_
    intro _
    exact (avoids_modify _).bind fun _ => avoids_pure _

theorem avoids_readEvent (fuel : ℕ) : Avoids .incomplete (Transaction.readEvent fuel) := by
  induction fuel with
  | zero => exact avoids_lift (by simp)
  | succ fuel ih =>
      rw [Transaction.readEvent]
      refine avoids_read.bind ?_
      intro received
      split
      · exact avoids_pure _
      · exact ih

/-! ## §3  Events -/

/-- What can happen while the guard of an inquiry is alive: it sends, and the
buffers of the channel are put to another use. -/
inductive Inquiry.Later : SessionCore × Inquiry → SessionCore × Inquiry → Prop where
  | refl (s : SessionCore × Inquiry) : Later s s
  | sent {s t : SessionCore × Inquiry} (bytes : Bytes) : Later s t →
      Later s (Inquiry.send bytes t).2
  | reused {s t : SessionCore × Inquiry} (ch : Channel) : Later s t →
      Later s ({ t.1 with channel := ch }, t.2)

/-- The guard has room for its metadata, and tells keyword and arguments then and
later. -/
def Inquiry.Tells (keyword : String) (args : PayloadRef) (s : SessionCore × Inquiry) : Prop :=
  s.2.metadata.length ≤ maxLineBytes ∧
    ∀ t, Inquiry.Later s t → t.2.keyword = .ok keyword ∧ t.2.args t.1 = .ok args

/-- A line of this kind has its event, unless it is an inquiry for which there is no
memory or no deadline. -/
def Yields (core : SessionCore) (kind : LineKind) (o : Outcome ClientError (Option Event)) : Prop :=
  (∃ event, o = .ok (some event)) ∨ kind = .inquire ∧
    (core.allocations.headD false = true ∧ o = .err (.limit .allocationFailed) ∨
      core.horizon.headD false = true ∧ o = .err .invalidOptions)

/-- How `next_event` ends. An event has the fields of the line that was taken for
it, and a line that was taken has its event, unless it is an inquiry for which
there is no memory or no deadline. -/
structure Reports (core : SessionCore) (completion : Completion)
    (o : Outcome ClientError (Option Event)) (s : SessionCore × Completion) : Prop where
  complete : o ≠ .err .incomplete
  safe : o ≠ .panic
  event : ∀ event, o = .ok (some event) → ∃ seg parsed, Took core s.1 seg parsed ∧
    told core.sensitivity parsed = some event ∧
    ∀ inquiry, event = .inquire inquiry → ∃ keyword args, parsed = .inquire keyword args ∧
      Inquiry.Tells keyword (PayloadRef.new args core.sensitivity) (s.1, inquiry)
  returned : completion = .pending → ¬ core.Poisoned → core.machine.state ≠ .inquiry →
    ∀ received core₁,
      Transaction.readEvent (core.channel.supply + 1) core = (.ok received, core₁) →
      Yields core received.kind o

theorem keeps_writeAt_sensitivity (sensitivity : Sensitivity) (line : Bytes) :
    Keeps (fun core => core.sensitivity = sensitivity) (SessionCore.writeAt line) := by
  have hbegin : Keeps (fun core => core.sensitivity = sensitivity) beginIo := fun _ h => h
  have hcomplete : Keeps (fun core => core.sensitivity = sensitivity) completeIo := fun _ h => h
  have hwrite : Keeps (fun core => core.sensitivity = sensitivity)
      (onChannel (Channel.writeLine line)) := fun _ h => h
  have hguard : Keeps (fun core => core.sensitivity = sensitivity)
      (Action.onError invalidate (onChannel (Channel.writeLine line))) := hwrite.onError fun _ h => h
  unfold SessionCore.writeAt
  refine (keeps_check_of fun _ h => h).bind ?_
  intro _
  refine hbegin.bind ?_
  intro _
  exact hguard.bind fun _ => hcomplete

theorem Inquiry.Later.kept {s t : SessionCore × Inquiry} (h : Inquiry.Later s t) :
    t.1.sensitivity = s.1.sensitivity ∧
      t.2.metadata = s.2.metadata ∧ t.2.keywordLen = s.2.keywordLen := by
  induction h with
  | refl => exact ⟨rfl, rfl, rfl⟩
  | @sent t bytes _ ih =>
      have hsend := @keeps_send_of (fun core => core.sensitivity = s.1.sensitivity)
        (fun inquiry => inquiry.metadata = s.2.metadata ∧ inquiry.keywordLen = s.2.keywordLen)
        (fun _ h => h) (keeps_writeAt_sensitivity _) (fun _ _ h => h) bytes
      exact hsend t ih
  | reused ch _ ih => exact ih

/-- Keyword and arguments are the two parts of the copy. -/
theorem tells_of_copy {keyword : String} {args : Bytes}
    (hfits : (asBytes keyword ++ args).length ≤ maxLineBytes) (core : SessionCore) :
    Inquiry.Tells keyword (PayloadRef.new args core.sensitivity)
      (core, ⟨asBytes keyword ++ args, (asBytes keyword).length, 0, false⟩) := by
  refine ⟨hfits, ?_⟩
  intro t hlater
  obtain ⟨hsensitivity, hmetadata, hlen⟩ := hlater.kept
  simp only at hsensitivity hmetadata hlen
  have hkeyword : (⟨0, t.2.keywordLen⟩ : Span).slice t.2.metadata = some (asBytes keyword) := by
    rw [hmetadata, hlen]
    simp [Span.slice]
  have hargs : (⟨t.2.keywordLen, t.2.metadata.length⟩ : Span).slice t.2.metadata = some args := by
    rw [hmetadata, hlen, Span.slice, if_pos ⟨by simp, Nat.le_refl _⟩]
    simp only [List.take_length, List.drop_left]
  constructor
  · rw [Inquiry.keyword, hkeyword, Outcome.index_some, Outcome.ok_bind, fromUtf8_asBytes]
    rfl
  · rw [Inquiry.args, hargs, Outcome.index_some, Outcome.ok_bind, hsensitivity]

/-- The fields of a line fit where the line has fitted. -/
theorem Took.fields_fit {keyword : String} {args : Bytes}
    (h : Took core core' seg (.inquire keyword args)) :
    (asBytes keyword ++ args).length ≤ maxLineBytes := by
  have hfields := parseServerLine_fields h.parses (Or.inr rfl)
  have hshort : (stripTerminator seg).length ≤ seg.length := by
    rw [stripTerminator_eq_take]
    exact List.length_take_le' _ _
  rw [List.length_append]
  exact Nat.le_trans hfields (Nat.le_trans hshort h.fits)

/-- `next_event` after a line was taken. -/
theorem makeEvent_fetched (h : Fetched core received core') (completion : Completion) :
    Action.Post (do
        Action.modify fun s => (s.1, Transaction.completionOf received s.2)
        let event ← onCore (Transaction.makeEvent received)
        pure (some event) : Action (SessionCore × Completion) ClientError (Option Event))
      (core', completion) fun o s =>
      (∃ event seg parsed, o = .ok (some event) ∧ Took core s.1 seg parsed ∧
        told core.sensitivity parsed = some event ∧ s.1.sensitivity = core.sensitivity) ∨
      received.kind = .inquire ∧
        (core.allocations.headD false = true ∧ o = .err (.limit .allocationFailed) ∨
          core.horizon.headD false = true ∧ o = .err .invalidOptions) := by
  obtain ⟨seg, parsed, held, htook, hempty, hheld, hpresents⟩ := h.line
  have hsettle : (Action.modify fun s => (s.1, Transaction.completionOf received s.2) :
      Action (SessionCore × Completion) ClientError Unit) (core', completion) =
      (.ok (), (core', Transaction.completionOf received completion)) := rfl
  apply Action.Post.bind_ok hsettle
  rcases makeEvent_told hheld hpresents hempty with
    ⟨event, allocations, horizon, hmake, htold, -, -⟩ |
    ⟨keyword, args, rfl, e, allocations, horizon, hwhy, hmake⟩
  · apply Action.Post.bind_ok (onCore_ok hmake)
    apply Action.Post.pure
    rw [h.sensitivity] at htold
    refine Or.inl ⟨event, seg, parsed, rfl, ?_, htold, h.sensitivity⟩
    exact ⟨htook.terminated, htook.fits, htook.parses, htook.bytes⟩
  · have hfail : onCore (Transaction.makeEvent received)
        (core', Transaction.completionOf received completion) = (.err e, _) :=
      Action.zoom_apply hmake
    apply Action.Post.bind_failed hfail (by simp)
    refine Or.inr ⟨hpresents.kind, ?_⟩
    rw [← h.allocations, ← h.horizon]
    rcases hwhy with ⟨hmemory, rfl⟩ | ⟨hlate, rfl⟩ | hlong
    · exact Or.inl ⟨hmemory, rfl⟩
    · exact Or.inr ⟨hlate, rfl⟩
    · exact absurd htook.fields_fit (Nat.not_le.mpr hlong)

/-- A step that returns no event and is not about a line. -/
theorem Reports.refused {completion : Completion} {o : Outcome ClientError (Option Event)}
    {s : SessionCore × Completion} (hcomplete : o ≠ .err .incomplete) (hsafe : o ≠ .panic)
    (hnone : ∀ event, o ≠ .ok (some event))
    (hwhy : completion ≠ .pending ∨ core.Poisoned ∨ core.machine.state = .inquiry ∨
      ∀ received core₁,
        Transaction.readEvent (core.channel.supply + 1) core ≠ (.ok received, core₁)) :
    Reports core completion o s := by
  refine ⟨hcomplete, hsafe, fun event h => absurd h (hnone event), ?_⟩
  intro hpending hlive hstate received core₁ hread
  rcases hwhy with h | h | h | h
  · exact absurd hpending h
  · exact absurd h hlive
  · exact absurd h hstate
  · exact absurd hread (h received core₁)

theorem next_reports (hstanding : Standing core.channel) (completion : Completion) :
    Action.Post Transaction.next (core, completion) (Reports core completion) := by
  unfold Transaction.next
  by_cases hlive : core.Poisoned
  · apply Action.Post.bind_failed (Action.zoom_apply hlive.check) (by simp)
    exact .refused (by simp [Outcome.relabel]) (by simp [Outcome.relabel])
      (by simp [Outcome.relabel]) (Or.inr (Or.inl hlive))
  apply Action.Post.bind_ok (onCore_ok (check_ok hlive))
  by_cases hinquiry : core.machine.state = .inquiry
  · have hrefuse : Transaction.refuseInquiry core = (.err (.state .notReady), core.invalidate) :=
      if_pos hinquiry
    apply Action.Post.bind_failed (Action.zoom_apply hrefuse) (by simp)
    exact .refused (by simp [Outcome.relabel]) (by simp [Outcome.relabel])
      (by simp [Outcome.relabel]) (Or.inr (Or.inr (Or.inl hinquiry)))
  have hpass : Transaction.refuseInquiry core = (.ok (), core) := if_neg hinquiry
  apply Action.Post.bind_ok (onCore_ok hpass)
  apply Action.Post.get_bind
  by_cases hdone : completion ≠ .pending
  · rw [if_pos hdone]
    exact .refused (by simp) (by simp) (by simp) (Or.inl hdone)
  rw [if_neg hdone]
  unfold Transaction.readNext
  apply Action.Post.get_bind
  have hfetched := readEvent_fetched hstanding (Nat.lt_succ_self _)
  have hcomplete := avoids_readEvent (core.channel.supply + 1) core
  rcases hread : Transaction.readEvent (core.channel.supply + 1) core with ⟨o, core₁⟩
  obtain ⟨hsafe, hline⟩ := hfetched.elim hread
  rw [hread] at hcomplete
  rcases o.ok_or_failed with ⟨received, rfl⟩ | ho
  · apply Action.Post.bind_ok (onCore_ok hread)
    apply Action.Post.mono (makeEvent_fetched (hline received rfl) completion)
    rintro o s (⟨event, seg, parsed, rfl, htook, htold, hsensitivity⟩ | ⟨hkind, hwhy⟩)
    · refine ⟨by simp, by simp, ?_, fun _ _ _ _ _ _ => Or.inl ⟨event, rfl⟩⟩
      rintro _ ⟨⟩
      refine ⟨seg, parsed, htook, htold, ?_⟩
      rintro inquiry rfl
      cases parsed with
      | inquire keyword args =>
          obtain rfl : _ = inquiry := Event.inquire.inj (Option.some.inj htold)
          refine ⟨keyword, args, rfl, ?_⟩
          rw [← hsensitivity]
          exact tells_of_copy htook.fields_fit s.1
      | data text =>
          obtain ⟨_, -, h⟩ := Option.map_eq_some_iff.mp htold
          exact absurd h (by simp)
      | _ => exact absurd htold (by simp [told])
    · have hreturned : ∀ received' core₁',
          Transaction.readEvent (core.channel.supply + 1) core = (.ok received', core₁') →
          received' = received := by
        intro received' core₁' hread'
        exact Outcome.ok.inj (Prod.mk.inj (hread'.symm.trans hread)).1
      refine ⟨?_, ?_, ?_, ?_⟩
      · rcases hwhy with ⟨-, rfl⟩ | ⟨-, rfl⟩ <;> simp
      · rcases hwhy with ⟨-, rfl⟩ | ⟨-, rfl⟩ <;> simp
      · rcases hwhy with ⟨-, rfl⟩ | ⟨-, rfl⟩ <;> simp
      · intro _ _ _ received' core₁' hread'
        rw [hreturned received' core₁' hread']
        exact Or.inr ⟨hkind, hwhy⟩
  · apply Action.Post.bind_failed (Action.zoom_apply hread) ho
    refine .refused ?_ (ho.relabel_ne_panic hsafe) (fun event => ho.relabel _) ?_
    · cases o with
      | err e => simpa [Outcome.relabel] using hcomplete
      | _ => simp [Outcome.relabel]
    · refine Or.inr (Or.inr (Or.inr ?_))
      intro received core₁' h
      rw [hread] at h
      exact ho received (Prod.mk.inj h).1

/-- A whole line is at hand, it is not empty, and `classify` accepts it. -/
structure AtHand (core : SessionCore) (seg : Bytes) (parsed : ServerLine) : Prop where
  opened : core.channel.stream.isSome = true
  clock : core.channel.clock.headD false = false
  terminated : Terminated lf seg
  fits : seg.length ≤ maxLineBytes
  buffered : seg <+: core.channel.unreadBytes
  parses : parseServerLine (stripTerminator seg) = .ok parsed
  nonempty : parsed.kind ≠ .empty
  decodes : parsed.Decodes
  wanted : (core.machine.receive parsed.kind).1 = .ok ()

/-- The loop of `next_event` hands the line over. -/
theorem AtHand.readEvent (h : AtHand core seg parsed) (hstanding : Standing core.channel)
    (hlive : ¬ core.Poisoned) (fuel : ℕ) :
    ∃ received core', received.kind = parsed.kind ∧
      Transaction.readEvent (fuel + 1) core = (.ok received, core') := by
  obtain ⟨rest, hrest⟩ := h.buffered
  obtain ⟨ch, hread⟩ :=
    readLine_buffered hstanding h.opened h.clock h.terminated h.fits hrest.symm
  have hline : onChannel Channel.readLine { core with ioUncertain := true } =
      (.ok (stripTerminator seg), { core with channel := ch, ioUncertain := true }) :=
    onChannel_apply { core with ioUncertain := true } hread
  rcases hclassify : classify (stripTerminator seg)
      { core with channel := ch, ioUncertain := true } with ⟨o, core'⟩
  have hclassified := ((classify_ends _ _).elim hclassify).classified
  obtain ⟨received, rfl⟩ := hclassified.accepts.mpr ⟨parsed, h.parses, h.decodes, h.wanted⟩
  obtain ⟨parsed', held, hparses, -, -, hrecovers⟩ := hclassified.fields received rfl
  obtain rfl := Outcome.ok.inj (h.parses.symm.trans hparses)
  have hbody : readBody { core with ioUncertain := true } = (.ok received, core') := by
    rw [readBody, Action.bind_ok hline, hclassify]
  have hnonempty : received.kind ≠ .empty := by
    rw [hrecovers.kind]
    exact h.nonempty
  refine ⟨received, logFinal received { core' with ioUncertain := false }, hrecovers.kind, ?_⟩
  rw [Transaction.readEvent, Action.bind_ok (read_ok hlive hbody), if_pos hnonempty]
  rfl

/-- **Positions recover the parsed fields.** For every line and every machine,
`classify` accepts exactly what parses, decodes and is wanted; what does not parse
or decode leaves the machine alone, and what is accepted is cut out of the line as
it was parsed. On every channel that calls can bring about, `next_event` returns
the event of the line that it took and never comes to the error `Incomplete`, it takes
a whole line that is at hand, and the guard of an inquiry tells the keyword and the
arguments for as long as it lives. -/
theorem fields_recovered (core : SessionCore) (stream : Stream) (clock : List Bool)
    (ops : List ChannelCall) (completion : Completion) :
    (∀ line, Action.Post (classify line) core (Classified line core)) ∧
      let core := { core with channel := performAll ops (Channel.new stream clock) }
      Action.Post Transaction.next (core, completion) fun o s =>
        Reports core completion o s ∧ (completion = .pending → ¬ core.Poisoned →
          core.machine.state ≠ .inquiry → ∀ seg parsed, AtHand core seg parsed →
            Yields core parsed.kind o) := by
  constructor
  · intro line
    exact (classify_ends line core).mono fun _ _ h => h.classified
  · have htidied : Tidied (performAll ops (Channel.new stream clock)) :=
      performAll_tidied ops ⟨standing_new stream clock, .new⟩
    apply Action.Post.mono (next_reports htidied.standing completion)
    intro o s hreports
    refine ⟨hreports, fun hpending hlive hstate seg parsed hhand => ?_⟩
    obtain ⟨received, core₁, hkind, hread⟩ := hhand.readEvent htidied.standing hlive _
    rw [← hkind]
    exact hreports.returned hpending hlive hstate received core₁ hread

end Events

end Assuan
