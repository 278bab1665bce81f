import Assuan.Fidelity.Events
import Assuan.Server.ContextSpec

/-!
# What the client answers, the server receives

The client counts the raw bytes of an answer before it encodes them, the server
counts decoded bytes after it has cut them out of as many data lines as it took.
The counts agree, each side stops at its own limit, and comments and empty lines
in between are not noticed.
-/

namespace Assuan

open Channel LineBuffer SessionCore

/-! ## §1  Budgets

Both sides charge a length with `checked_add` and `filter`. -/

theorem budget_ok {limit spent length : ℕ} (hmax : limit ≤ usizeMax)
    (h : spent + length ≤ limit) :
    (checkedAdd usizeMax spent length).filter (· ≤ limit) = some (spent + length) := by
  have hadd : checkedAdd usizeMax spent length = some (spent + length) :=
    checkedAdd_eq_some.mpr ⟨Nat.le_trans h hmax, rfl⟩
  rw [hadd, Option.filter_some, decide_eq_true h]
  rfl

/-- Over the limit is over the limit, also when the sum overflows. -/
theorem budget_over {limit spent length : ℕ} (h : limit < spent + length) :
    (checkedAdd usizeMax spent length).filter (· ≤ limit) = none := by
  cases hadd : checkedAdd usizeMax spent length with
  | none => rfl
  | some total =>
      obtain ⟨-, rfl⟩ := checkedAdd_eq_some.mp hadd
      rw [Option.filter_some, decide_eq_false (Nat.not_le.mpr h)]
      rfl

/-! ## §2  The client writes -/

/-- A client that is asked, with `input` left to read. -/
structure Answering (core : SessionCore) (input : Bytes) : Prop where
  ideal : Ideal core.channel input
  certain : core.ioUncertain = false
  state : core.machine.state = .inquiry

section Client

variable {core : SessionCore} {input : Bytes} {inquiry : Inquiry}

theorem Answering.not_poisoned (h : Answering core input) : ¬ core.Poisoned :=
  live_of_certain h.certain (by simp [h.state])

theorem Answering.check (h : Answering core input) : Inquiry.check core = (.ok (), core) := by
  rw [Inquiry.check, Action.bind_ok (check_ok h.not_poisoned)]
  exact requireState_ok h.state

/-- What sending changes: the channel has written some lines. -/
structure Sent (core : SessionCore) (lines : List Bytes) (core' : SessionCore) : Prop where
  machine : core'.machine = core.machine
  budget : core'.maxInquiryBytes = core.maxInquiryBytes
  trace : core'.channel.trace = core.channel.trace ++ lines.map .wrote

theorem Sent.trans {core₁ core₂ : SessionCore} {lines lines' : List Bytes}
    (h : Sent core lines core₁) (h' : Sent core₁ lines' core₂) :
    Sent core (lines ++ lines') core₂ := by
  refine ⟨h'.machine.trans h.machine, h'.budget.trans h.budget, ?_⟩
  rw [h'.trace, h.trace, List.map_append, List.append_assoc]

theorem Answering.writeAt (h : Answering core input) {line : Bytes}
    (hvalid : validateWireLine line = .ok ()) :
    ∃ core', SessionCore.writeAt line core = (.ok (), core') ∧ Answering core' input ∧
      Sent core [line] core' := by
  obtain ⟨ch, hwrite, hideal, htrace, -⟩ := writeAt_ideal h.ideal h.not_poisoned hvalid
  exact ⟨_, hwrite, ⟨hideal, h.certain, h.state⟩, ⟨rfl, rfl, htrace⟩⟩

theorem Answering.writeLines {lines : List Bytes} (h : Answering core input)
    (hvalid : ∀ line ∈ lines, validateWireLine line = .ok ()) :
    ∃ core', Action.forEach SessionCore.writeAt lines core = (.ok (), core') ∧
      Answering core' input ∧ Sent core lines core' := by
  induction lines generalizing core with
  | nil => exact ⟨core, rfl, h, ⟨rfl, rfl, by simp⟩⟩
  | cons line lines ih =>
      obtain ⟨core₁, hwrite, hanswering, hsent⟩ := h.writeAt (hvalid line List.mem_cons_self)
      obtain ⟨core', hrest, hanswering', hsent'⟩ :=
        ih hanswering fun l hl => hvalid l (List.mem_cons_of_mem _ hl)
      refine ⟨core', ?_, hanswering', hsent.trans hsent'⟩
      rw [Action.forEach, Action.bind_ok hwrite, hrest]

theorem Answering.charge_ok {bytes : Bytes} (hmax : core.maxInquiryBytes ≤ usizeMax)
    (hfits : inquiry.sent + bytes.length ≤ core.maxInquiryBytes) :
    Inquiry.charge bytes (core, inquiry) = (.ok (inquiry.sent + bytes.length), (core, inquiry)) := by
  simp only [Inquiry.charge, budget_ok hmax hfits]

theorem Answering.charge_over {bytes : Bytes}
    (hover : core.maxInquiryBytes < inquiry.sent + bytes.length) :
    Inquiry.charge bytes (core, inquiry) =
      (.err (.limit .capacityExceeded), (core.invalidate, inquiry)) := by
  simp only [Inquiry.charge, budget_over hover]

theorem Answering.send_ok {bytes : Bytes} (h : Answering core input)
    (hmax : core.maxInquiryBytes ≤ usizeMax)
    (hfits : inquiry.sent + bytes.length ≤ core.maxInquiryBytes) :
    ∃ core', Inquiry.send bytes (core, inquiry) =
        (.ok (), (core', { inquiry with sent := inquiry.sent + bytes.length })) ∧
      Answering core' input ∧ Sent core ((pieces bytes).map dataLine) core' := by
  have hvalid : ∀ line ∈ (pieces bytes).map dataLine, validateWireLine line = .ok () := by
    intro line hline
    obtain ⟨piece, hpiece, rfl⟩ := List.mem_map.mp hline
    exact validateWireLine_dataLine hpiece
  obtain ⟨core', hwrite, hanswering, hsent⟩ := h.writeLines hvalid
  have hcheck : onCore Inquiry.check (core, inquiry) = (.ok (), (core, inquiry)) :=
    Action.zoom_apply h.check
  have hstream : onCore (streamData SessionCore.writeAt .protocol (bytes.length + 1) bytes)
      (core, inquiry) = (.ok (), (core', inquiry)) := by
    apply Action.zoom_apply
    rw [streamData_eq]
    exact hwrite
  refine ⟨core', ?_, hanswering, hsent⟩
  rw [Inquiry.send, Action.bind_ok hcheck, Action.bind_ok (charge_ok hmax hfits),
    Action.bind_ok hstream]
  rfl

theorem Answering.send_over {bytes : Bytes} (h : Answering core input)
    (hover : core.maxInquiryBytes < inquiry.sent + bytes.length) :
    Inquiry.send bytes (core, inquiry) =
      (.err (.limit .capacityExceeded), (core.invalidate, inquiry)) := by
  have hcheck : onCore Inquiry.check (core, inquiry) = (.ok (), (core, inquiry)) :=
    Action.zoom_apply h.check
  rw [Inquiry.send, Action.bind_ok hcheck, Action.bind_failed (charge_over hover) (by simp)]
  rfl

/-- All calls of an answer, by induction: the count after each is the sum of the
lengths so far. -/
theorem Answering.sendAll {payloads : List Bytes} (h : Answering core input)
    (hmax : core.maxInquiryBytes ≤ usizeMax)
    (hfits : inquiry.sent + payloads.flatten.length ≤ core.maxInquiryBytes) :
    ∃ core', Action.forEach Inquiry.send payloads (core, inquiry) =
        (.ok (), (core', { inquiry with sent := inquiry.sent + payloads.flatten.length })) ∧
      Answering core' input ∧ Sent core ((payloads.flatMap pieces).map dataLine) core' := by
  induction payloads generalizing core inquiry with
  | nil => exact ⟨core, rfl, h, ⟨rfl, rfl, by simp⟩⟩
  | cons bytes payloads ih =>
      rw [List.flatten_cons, List.length_append] at hfits
      obtain ⟨core₁, hsend, hanswering, hsent⟩ :=
        @Answering.send_ok core input inquiry bytes h hmax (by omega)
      obtain ⟨core', hrest, hanswering', hsent'⟩ :=
        @ih core₁ { inquiry with sent := inquiry.sent + bytes.length } hanswering
          (by rw [hsent.budget]; exact hmax)
          (by rw [hsent.budget]; show inquiry.sent + bytes.length + _ ≤ _; omega)
      refine ⟨core', ?_, hanswering', ?_⟩
      · rw [Action.forEach, Action.bind_ok hsend, hrest, List.flatten_cons, List.length_append,
          Nat.add_assoc]
      · rw [List.flatMap_cons, List.map_append]
        exact hsent.trans hsent'

/-- `finish` or `cancel`: the terminator is written, and the inquiry is over. -/
theorem Answering.finish (h : Answering core input) (cancelled : Bool) :
    ∃ core', Inquiry.finish cancelled inquiry core = (.ok (), core') ∧
      core'.channel.trace = core.channel.trace ++ [.wrote (Inquiry.terminator cancelled)] ∧
      core'.ioUncertain = false ∧
      core'.machine.state = if cancelled then .awaitFinal else core.machine.inquiryOrigin := by
  obtain ⟨ch, hfinish, -, htrace, -⟩ :=
    finishInquiry_ideal h.ideal h.not_poisoned h.state cancelled
  exact ⟨_, hfinish, htrace, h.certain, rfl⟩

end Client

/-! ## §3  Lines in between -/

/-- A comment or an empty line. -/
inductive Noise : Bytes → Prop where
  | empty : Noise [lf]
  | comment (text : Bytes) : isCleanLine text = true → text.length + 2 ≤ maxLineBytes →
      Noise (asBytes "#" ++ text ++ [lf])

/-- The second list is the first with noise put before any of its lines. -/
inductive Noisy : List Bytes → List Bytes → Prop where
  | nil : Noisy [] []
  | line {line : Bytes} {lines stream : List Bytes} :
      Noisy lines stream → Noisy (line :: lines) (line :: stream)
  | noise {noise : Bytes} {lines stream : List Bytes} :
      Noise noise → Noisy lines stream → Noisy lines (noise :: stream)

/-- Up to the next line there is only noise. -/
theorem Noisy.cons {line : Bytes} {lines stream : List Bytes} (h : Noisy (line :: lines) stream) :
    ∃ noises later, stream = noises ++ line :: later ∧ (∀ noise ∈ noises, Noise noise) ∧
      Noisy lines later := by
  generalize hall : line :: lines = all at h
  induction h with
  | nil => exact absurd hall (by simp)
  | @line first rest stream hrest _ =>
      obtain ⟨rfl, rfl⟩ := List.cons.inj hall
      exact ⟨[], stream, rfl, by simp, hrest⟩
  | @noise noise rest stream hnoise _ ih =>
      obtain ⟨noises, later, rfl, hnoises, hlater⟩ := ih hall
      refine ⟨noise :: noises, later, rfl, ?_, hlater⟩
      intro n hn
      rcases List.mem_cons.mp hn with rfl | hn
      · exact hnoise
      · exact hnoises n hn

/-- What the classifier makes of a noise line. -/
theorem Noise.body {noise : Bytes} (h : Noise noise) :
    ∃ body kind, noise = body ++ [lf] ∧ isCleanLine body = true ∧
      body.length + 1 ≤ maxLineBytes ∧ requestKind body = .ok kind ∧
      (kind = .empty ∨ kind = .comment) := by
  cases h with
  | empty => exact ⟨[], .empty, rfl, rfl, by decide, rfl, Or.inl rfl⟩
  | comment text hclean hlen =>
      have hbody : isCleanLine (asBytes "#" ++ text) = true := by
        rw [isCleanLine_append, hclean]
        decide
      have hforbidden : (asBytes "#" ++ text).any isForbidden = false := by
        simpa [isCleanLine] using hbody
      have hhash : startsWith (asBytes "#") (asBytes "#" ++ text) = true := by
        rw [startsWith, stripPrefix_eq_some.mpr rfl]
        rfl
      refine ⟨asBytes "#" ++ text, .comment, rfl, hbody, ?_, ?_, Or.inr rfl⟩
      · rw [List.length_append]
        show 1 + text.length + 1 ≤ _
        omega
      · rw [requestKind, hforbidden, if_neg (by simp), if_neg (by simp [asBytes_hash]),
          if_pos hhash]

theorem Noise.terminated {noise : Bytes} (h : Noise noise) : Terminated lf noise := by
  obtain ⟨body, kind, rfl, hclean, -⟩ := h.body
  exact terminated_of_clean hclean

/-! ## §4  The server reads -/

/-- A server that asks, with `input` left to read. -/
structure Asking (inquiry : ServerInquiry) (input : Bytes) : Prop where
  ideal : Ideal inquiry.link.channel input
  state : inquiry.link.machine.state = .inquiry
  outcome : inquiry.outcome = none

section Server

variable {inquiry : ServerInquiry} {link : Link} {rest : Bytes}

theorem link_readLine {body : Bytes} (h : Ideal link.channel (body ++ [lf] ++ rest))
    (hclean : isCleanLine body = true) (hlen : body.length + 1 ≤ maxLineBytes) :
    ∃ ch, Link.readLine link = (.ok body, { link with channel := ch }) ∧ Ideal ch rest ∧
      Holds ch body ∧ written ch.trace = written link.channel.trace := by
  obtain ⟨ch, hread, hideal, hholds, hadvances⟩ := h.readLine hclean hlen
  exact ⟨ch, Action.mapErr_apply (Action.zoom_apply hread), hideal, hholds, hadvances.written⟩

/-- The loop of `next` passes over the noise and stops at the line. It only reads. -/
theorem nextLine_ok {body : Bytes} {kind : RequestKind} (hclean : isCleanLine body = true)
    (hlen : body.length + 1 ≤ maxLineBytes) (hkind : requestKind body = .ok kind)
    (hstop : kind = .data ∨ kind = .end_ ∨ kind = .can) {noises : List Bytes}
    (hnoises : ∀ noise ∈ noises, Noise noise) {fuel : ℕ} (hfuel : noises.length < fuel)
    (hstate : link.machine.state = .inquiry)
    (h : Ideal link.channel (noises.flatten ++ (body ++ [lf] ++ rest))) :
    ∃ ch, ServerInquiry.nextLine fuel link = (.ok (kind, body), { link with channel := ch }) ∧
      Ideal ch rest ∧ Holds ch body ∧ written ch.trace = written link.channel.trace := by
  induction noises generalizing link fuel with
  | nil =>
      obtain ⟨fuel, rfl⟩ : ∃ n, fuel = n + 1 := ⟨fuel - 1, by simp at hfuel; omega⟩
      obtain ⟨ch, hread, hideal, hholds, hwritten⟩ := link_readLine h hclean hlen
      refine ⟨ch, ?_, hideal, hholds, hwritten⟩
      rw [ServerInquiry.nextLine, Action.bind_ok hread, hkind, Outcome.mapErr_ok,
        Action.lift_ok_bind]
      rcases hstop with rfl | rfl | rfl
      · have hreceive : Link.receiveRequest .data { link with channel := ch } =
            (.ok (), { link with channel := ch }) := by
          simp [Link.receiveRequest, ServerMachine.receiveRequest, hstate, ofState]
        rw [if_neg (by simp), Action.bind_ok hreceive, if_pos rfl]
        rfl
      · rw [if_pos (by simp)]
        rfl
      · rw [if_pos (by simp)]
        rfl
  | cons noise noises ih =>
      obtain ⟨fuel, rfl⟩ : ∃ n, fuel = n + 1 := ⟨fuel - 1, by simp at hfuel; omega⟩
      obtain ⟨comment, kind', rfl, hclean', hlen', hkind', hskip⟩ :=
        (hnoises noise List.mem_cons_self).body
      rw [List.flatten_cons, List.append_assoc] at h
      obtain ⟨ch₁, hread, hideal₁, -, hwritten₁⟩ := link_readLine h hclean' hlen'
      obtain ⟨ch, hloop, hideal, hholds, hwritten⟩ :=
        @ih { link with channel := ch₁ } (fun n hn => hnoises n (List.mem_cons_of_mem _ hn)) fuel
          (by simpa using hfuel) hstate hideal₁
      refine ⟨ch, ?_, hideal, hholds, hwritten.trans hwritten₁⟩
      have hreceive : Link.receiveRequest kind' { link with channel := ch₁ } =
          (.ok (), { link with channel := ch₁ }) := by
        rcases hskip with rfl | rfl <;>
          simp [Link.receiveRequest, ServerMachine.receiveRequest, hstate, ofState]
      rw [ServerInquiry.nextLine, Action.bind_ok hread, hkind', Outcome.mapErr_ok,
        Action.lift_ok_bind]
      rcases hskip with rfl | rfl
      · rw [if_neg (by simp), Action.bind_ok hreceive, if_neg (by simp), hloop]
      · rw [if_neg (by simp), Action.bind_ok hreceive, if_neg (by simp), hloop]

/-- The part of `next` that finds the line. -/
theorem Asking.nextLine {noises : List Bytes} {body : Bytes} {kind : RequestKind}
    (hnoises : ∀ noise ∈ noises, Noise noise)
    (h : Asking inquiry (noises.flatten ++ (body ++ [lf] ++ rest)))
    (hclean : isCleanLine body = true) (hlen : body.length + 1 ≤ maxLineBytes)
    (hkind : requestKind body = .ok kind) (hstop : kind = .data ∨ kind = .end_ ∨ kind = .can) :
    ∃ ch, Ideal ch rest ∧ Holds ch body ∧
      written ch.trace = written inquiry.link.channel.trace ∧
      ServerInquiry.onLink (ServerInquiry.nextLine (inquiry.link.channel.supply + 1)) inquiry =
        (.ok (kind, body), { inquiry with link := { inquiry.link with channel := ch } }) := by
  have hfuel : noises.length < inquiry.link.channel.supply + 1 := by
    have hle := length_le_flatten fun noise hnoise => (hnoises noise hnoise).terminated
    rw [h.ideal.supply, List.length_append]
    omega
  obtain ⟨ch, hloop, hideal, hholds, hwritten⟩ :=
    nextLine_ok hclean hlen hkind hstop hnoises hfuel h.state h.ideal
  exact ⟨ch, hideal, hholds, hwritten, Action.zoom_apply hloop⟩

/-- The body of the `IoOperation` of `next`. -/
theorem nextOperation_body {kind : RequestKind} {body : Bytes} {inquiry₁ : ServerInquiry}
    (hloop : ServerInquiry.onLink (ServerInquiry.nextLine (inquiry.link.channel.supply + 1)) inquiry =
      (.ok (kind, body), inquiry₁)) :
    (do
      let inquiry ← Action.get
      let heard ← ServerInquiry.onLink (ServerInquiry.nextLine (inquiry.link.channel.supply + 1))
      ServerInquiry.accept heard : Action ServerInquiry HandlerError (Option ℕ)) inquiry =
        ServerInquiry.accept (kind, body) inquiry₁ := by
  rw [Action.bind_ok (Action.get_apply inquiry), Action.bind_ok hloop]

theorem Asking.next_eq (h : Asking inquiry rest) :
    ServerInquiry.next inquiry =
      (ServerInquiry.nextOperation >>= ServerInquiry.payload) inquiry := by
  rw [ServerInquiry.next, Action.bind_ok (Action.get_apply inquiry), h.outcome, if_neg (by simp)]

/-- What `next` leaves as it was. -/
structure Same (inquiry inquiry' : ServerInquiry) : Prop where
  machine : inquiry'.link.machine = inquiry.link.machine
  sensitivity : inquiry'.sensitivity = inquiry.sensitivity
  limit : inquiry'.limit = inquiry.limit
  written : written inquiry'.link.channel.trace = written inquiry.link.channel.trace

/-- The line as it is after decoding in place. -/
def decodedLine (piece : Bytes) : Bytes :=
  asBytes "D " ++ (piece ++ (escapeBytes piece).drop piece.length)

theorem accept_dataLine (inquiry : ServerInquiry) (piece : Bytes) :
    ServerInquiry.accept (.data, asBytes "D " ++ escapeBytes piece) inquiry =
      match ServerInquiry.chargeLimit piece.length inquiry with
      | none => (.err (.limit .capacityExceeded), inquiry.edited (decodedLine piece))
      | some total =>
          (.ok (some piece.length), { inquiry.edited (decodedLine piece) with received := total }) := by
  have hlen : 2 ≤ (asBytes "D " ++ escapeBytes piece).length := by
    rw [List.length_append]
    exact Nat.le_add_right 2 _
  have hdrop : (asBytes "D " ++ escapeBytes piece).drop 2 = escapeBytes piece := rfl
  have htake : (asBytes "D " ++ escapeBytes piece).take 2 = asBytes "D " := rfl
  rw [ServerInquiry.accept_data hlen]
  simp only [hdrop, htake, decodeRef_escapeBytes]
  rfl

theorem decodedLine_length (piece : Bytes) :
    (decodedLine piece).length = (asBytes "D " ++ escapeBytes piece).length := by
  have hle := decodeRef_length (decodeRef_escapeBytes piece)
  simp only [decodedLine, List.length_append, List.length_drop]
  omega

/-- The lookup at the end of `next` finds the decoded piece. -/
theorem payload_ok {inquiry : ServerInquiry} {piece : Bytes}
    (h : inquiry.link.channel.receivedLine = some (decodedLine piece)) :
    ServerInquiry.payload (some piece.length) inquiry =
      (.ok (some (PayloadRef.new piece inquiry.sensitivity)), inquiry) := by
  have hle : 2 + piece.length ≤ (decodedLine piece).length := by
    simp only [decodedLine, List.length_append]
    show 2 + piece.length ≤ 2 + _
    omega
  have hcut : ((decodedLine piece).take (2 + piece.length)).drop 2 = piece := by
    rw [decodedLine, ← List.append_assoc]
    have hhead : 2 + piece.length = (asBytes "D " ++ piece).length := by
      rw [List.length_append]
      rfl
    rw [hhead, List.take_left]
    rfl
  rw [ServerInquiry.payload, Action.bind_ok (Action.get_apply inquiry), h, Outcome.okOr_some,
    Action.lift_ok_bind, if_pos hle, hcut, Outcome.index_some, Action.lift_ok_bind]
  rfl

/-- Data within the budget is delivered and counted. -/
theorem Asking.next_data {noises : List Bytes} {piece : Bytes}
    (hnoises : ∀ noise ∈ noises, Noise noise)
    (h : Asking inquiry (noises.flatten ++ (dataLine piece ++ rest)))
    (hlen : (dataLine piece).length ≤ maxLineBytes) (hmax : inquiry.limit ≤ usizeMax)
    (hfits : inquiry.received + piece.length ≤ inquiry.limit) :
    ∃ inquiry', ServerInquiry.next inquiry =
        (.ok (some (PayloadRef.new piece inquiry.sensitivity)), inquiry') ∧
      Asking inquiry' rest ∧ inquiry'.received = inquiry.received + piece.length ∧
      Same inquiry inquiry' := by
  have hlen' : (asBytes "D " ++ escapeBytes piece).length + 1 ≤ maxLineBytes := by
    rwa [dataLine, List.length_append, List.length_singleton] at hlen
  obtain ⟨ch, hideal, hholds, hwritten, hloop⟩ := h.nextLine hnoises (dataLine_body_clean piece)
    hlen' (requestKind_dataBody piece) (Or.inl rfl)
  have hcharge : ServerInquiry.chargeLimit piece.length
      { inquiry with link := { inquiry.link with channel := ch } } =
        some (inquiry.received + piece.length) := budget_ok hmax hfits
  have haccept := accept_dataLine { inquiry with link := { inquiry.link with channel := ch } } piece
  rw [hcharge] at haccept
  have hoperation : ServerInquiry.nextOperation inquiry = _ :=
    Action.onFailure_ok ((nextOperation_body hloop).trans haccept)
  have hline : (ch.editLine (decodedLine piece)).receivedLine = some (decodedLine piece) :=
    hholds.editLine (decodedLine_length piece)
  have hpayload := @payload_ok { inquiry with
    link := { inquiry.link with channel := ch.editLine (decodedLine piece) }
    received := inquiry.received + piece.length } piece hline
  refine ⟨{ inquiry with
    link := { inquiry.link with channel := ch.editLine (decodedLine piece) }
    received := inquiry.received + piece.length }, ?_,
    ⟨hideal.editLine _, h.state, h.outcome⟩, rfl, ⟨rfl, rfl, rfl, hwritten⟩⟩
  rw [h.next_eq, Action.bind_ok hoperation]
  exact hpayload

/-- The first data over the budget is not delivered, and closes the session. -/
theorem Asking.next_over {noises : List Bytes} {piece : Bytes}
    (hnoises : ∀ noise ∈ noises, Noise noise)
    (h : Asking inquiry (noises.flatten ++ (dataLine piece ++ rest)))
    (hlen : (dataLine piece).length ≤ maxLineBytes)
    (hover : inquiry.limit < inquiry.received + piece.length) :
    ∃ inquiry', ServerInquiry.next inquiry = (.err (.limit .capacityExceeded), inquiry') ∧
      inquiry'.link.machine.state = .invalid ∧ inquiry'.link.channel.stream = none ∧
      inquiry'.received = inquiry.received := by
  have hlen' : (asBytes "D " ++ escapeBytes piece).length + 1 ≤ maxLineBytes := by
    rwa [dataLine, List.length_append, List.length_singleton] at hlen
  obtain ⟨ch, -, -, -, hloop⟩ := h.nextLine hnoises (dataLine_body_clean piece) hlen'
    (requestKind_dataBody piece) (Or.inl rfl)
  have hcharge : ServerInquiry.chargeLimit piece.length
      { inquiry with link := { inquiry.link with channel := ch } } = none := budget_over hover
  have haccept := accept_dataLine { inquiry with link := { inquiry.link with channel := ch } } piece
  rw [hcharge] at haccept
  have hoperation : ServerInquiry.nextOperation inquiry = _ :=
    Action.onFailure_failed ((nextOperation_body hloop).trans haccept) (by simp)
  refine ⟨(ServerInquiry.edited { inquiry with link := { inquiry.link with channel := ch } }
    (decodedLine piece)).abandon, ?_, ?_, rfl, rfl⟩
  · rw [h.next_eq, Action.bind_failed hoperation (by simp)]
    rfl
  · show (inquiry.link.machine.invalidate).state = .invalid
    rw [ServerMachine.invalidate, if_neg (by rw [h.state]; simp)]

def outcomeOf (cancelled : Bool) : InquiryOutcome := if cancelled then .cancelled else .completed

/-- The line that ends an answer is remembered; the machine waits for `finish`. -/
theorem Asking.ends {noises : List Bytes} {body : Bytes} {outcome : InquiryOutcome}
    (hnoises : ∀ noise ∈ noises, Noise noise)
    (h : Asking inquiry (noises.flatten ++ (body ++ [lf] ++ rest)))
    (hclean : isCleanLine body = true) (hlen : body.length + 1 ≤ maxLineBytes)
    (hkind : requestKind body = .ok outcome.request) :
    ∃ inquiry', ServerInquiry.next inquiry = (.ok none, inquiry') ∧
      Ideal inquiry'.link.channel rest ∧ inquiry'.outcome = some outcome ∧
      inquiry'.received = inquiry.received ∧ Same inquiry inquiry' := by
  have hstop : outcome.request = .data ∨ outcome.request = .end_ ∨ outcome.request = .can := by
    cases outcome with
    | completed => exact Or.inr (Or.inl rfl)
    | cancelled => exact Or.inr (Or.inr rfl)
  obtain ⟨ch, hideal, -, hwritten, hloop⟩ := h.nextLine hnoises hclean hlen hkind hstop
  have haccept : ServerInquiry.accept (outcome.request, body)
      { inquiry with link := { inquiry.link with channel := ch } } = (.ok none, { inquiry with
        link := { inquiry.link with channel := ch }, outcome := some outcome }) := by
    cases outcome with
    | completed => exact ServerInquiry.accept_end _
    | cancelled => exact ServerInquiry.accept_can _
  have hoperation : ServerInquiry.nextOperation inquiry = _ :=
    Action.onFailure_ok ((nextOperation_body hloop).trans haccept)
  refine ⟨{ inquiry with link := { inquiry.link with channel := ch }, outcome := some outcome }, ?_,
    hideal, rfl, rfl, ⟨rfl, rfl, rfl, hwritten⟩⟩
  rw [h.next_eq, Action.bind_ok hoperation]
  rfl

theorem Asking.next_end {noises : List Bytes} {cancelled : Bool}
    (hnoises : ∀ noise ∈ noises, Noise noise)
    (h : Asking inquiry (noises.flatten ++ (Inquiry.terminator cancelled ++ rest))) :
    ∃ inquiry', ServerInquiry.next inquiry = (.ok none, inquiry') ∧
      Ideal inquiry'.link.channel rest ∧ inquiry'.outcome = some (outcomeOf cancelled) ∧
      inquiry'.received = inquiry.received ∧ Same inquiry inquiry' := by
  cases cancelled with
  | true =>
      exact @Asking.ends inquiry rest noises (asBytes "CAN") .cancelled hnoises h (by decide)
        (by decide) (by decide)
  | false =>
      exact @Asking.ends inquiry rest noises (asBytes "END") .completed hnoises h (by decide)
        (by decide) (by decide)

theorem next_again (h : inquiry.outcome.isSome = true) :
    ServerInquiry.next inquiry = (.ok none, inquiry) := by
  rw [ServerInquiry.next, Action.bind_ok (Action.get_apply inquiry), if_pos h]
  rfl

/-- The machine after `END` or `CAN`. -/
def answeredMachine (machine : ServerMachine) (cancelled : Bool) : ServerMachine :=
  { machine with state := if cancelled then .awaitFinal else machine.inquiryOrigin }

theorem finish_ok {cancelled : Bool} (hstate : inquiry.link.machine.state = .inquiry)
    (h : inquiry.outcome = some (outcomeOf cancelled)) :
    inquiry.finish = (.ok (outcomeOf cancelled),
      { inquiry.link with machine := answeredMachine inquiry.link.machine cancelled }) := by
  have hreceive : Link.receiveRequest (outcomeOf cancelled).request inquiry.link =
      (.ok (), { inquiry.link with machine := answeredMachine inquiry.link.machine cancelled }) := by
    cases cancelled <;>
      simp [Link.receiveRequest, ServerMachine.receiveRequest, hstate, ofState, outcomeOf,
        InquiryOutcome.request, answeredMachine]
  apply Action.onFailure_ok
  rw [h, Outcome.okOr_some, Action.lift_ok_bind, Action.bind_ok hreceive]
  rfl

/-! ### Whole answers -/

/-- The results of `n` calls of `next`. -/
def ServerInquiry.collect : ℕ → Action ServerInquiry HandlerError (List (Option PayloadRef))
  | 0 => pure []
  | n + 1 => do
      let payload ← ServerInquiry.next
      let rest ← collect n
      pure (payload :: rest)

theorem serverCollect_succ {n : ℕ} {payload : Option PayloadRef} {payloads : List (Option PayloadRef)}
    {inquiry₁ inquiry₂ : ServerInquiry} (hnext : ServerInquiry.next inquiry = (.ok payload, inquiry₁))
    (hrest : ServerInquiry.collect n inquiry₁ = (.ok payloads, inquiry₂)) :
    ServerInquiry.collect (n + 1) inquiry = (.ok (payload :: payloads), inquiry₂) := by
  rw [ServerInquiry.collect, Action.bind_ok hnext, Action.bind_ok hrest]
  rfl

theorem collect_none (h : inquiry.outcome.isSome = true) (n : ℕ) :
    ServerInquiry.collect n inquiry = (.ok (List.replicate n none), inquiry) := by
  induction n with
  | zero => rfl
  | succ n ih => exact serverCollect_succ (next_again h) ih

theorem Same.trans {inquiry₁ inquiry₂ : ServerInquiry} (h : Same inquiry inquiry₁)
    (h' : Same inquiry₁ inquiry₂) : Same inquiry inquiry₂ :=
  ⟨h'.machine.trans h.machine, h'.sensitivity.trans h.sensitivity, h'.limit.trans h.limit,
    h'.written.trans h.written⟩

/-- An answer within the budget, by induction on its data lines. -/
theorem Asking.collect_fits {parts stream : List Bytes} {cancelled : Bool}
    (hparts : ∀ piece ∈ parts, (dataLine piece).length ≤ maxLineBytes)
    (hstream : Noisy (parts.map dataLine ++ [Inquiry.terminator cancelled]) stream)
    (h : Asking inquiry (stream.flatten ++ rest)) (hmax : inquiry.limit ≤ usizeMax)
    (hfits : inquiry.received + parts.flatten.length ≤ inquiry.limit) :
    ∃ inquiry', inquiry'.outcome = some (outcomeOf cancelled) ∧
      inquiry'.received = inquiry.received + parts.flatten.length ∧ Same inquiry inquiry' ∧
      ∀ extra, ServerInquiry.collect (parts.length + extra + 1) inquiry =
        (.ok (parts.map (fun piece => some (PayloadRef.new piece inquiry.sensitivity)) ++
          List.replicate (extra + 1) none), inquiry') := by
  induction parts generalizing inquiry stream with
  | nil =>
      obtain ⟨noises, later, rfl, hnoises, -⟩ := hstream.cons
      rw [List.flatten_append, List.flatten_cons, List.append_assoc, List.append_assoc] at h
      obtain ⟨inquiry', hnext, -, houtcome, hreceived, hsame⟩ := h.next_end hnoises
      refine ⟨inquiry', houtcome, hreceived, hsame, ?_⟩
      intro extra
      rw [List.length_nil, Nat.zero_add]
      exact serverCollect_succ hnext (collect_none (by rw [houtcome]; rfl) extra)
  | cons piece parts ih =>
      rw [List.flatten_cons, List.length_append] at hfits
      obtain ⟨noises, later, rfl, hnoises, hlater⟩ := hstream.cons
      rw [List.flatten_append, List.flatten_cons, List.append_assoc, List.append_assoc] at h
      obtain ⟨inquiry₁, hnext, hasking, hreceived, hsame⟩ :=
        h.next_data hnoises (hparts piece List.mem_cons_self) hmax (by omega)
      obtain ⟨inquiry', houtcome, hreceived', hsame', hcollect⟩ :=
        ih (fun p hp => hparts p (List.mem_cons_of_mem _ hp)) hlater hasking
          (by rw [hsame.limit]; exact hmax) (by rw [hsame.limit, hreceived]; omega)
      refine ⟨inquiry', houtcome, ?_, hsame.trans hsame', ?_⟩
      · rw [hreceived', hreceived, List.flatten_cons, List.length_append, Nat.add_assoc]
      · intro extra
        have hcount : (piece :: parts).length + extra + 1 = parts.length + extra + 1 + 1 := by
          rw [List.length_cons]
          omega
        have hrest := hcollect extra
        rw [hsame.sensitivity] at hrest
        rw [hcount]
        exact serverCollect_succ hnext hrest

/-- An answer over the budget: the calls before the crossing line succeed, and
the one that meets it fails. -/
theorem Asking.collect_over {parts stream lines : List Bytes}
    (hparts : ∀ piece ∈ parts, (dataLine piece).length ≤ maxLineBytes)
    (hstream : Noisy (parts.map dataLine ++ lines) stream)
    (h : Asking inquiry (stream.flatten ++ rest)) (hmax : inquiry.limit ≤ usizeMax)
    (hspent : inquiry.received ≤ inquiry.limit)
    (hover : inquiry.limit < inquiry.received + parts.flatten.length) :
    ∃ before piece after inquiry₁ inquiry', parts = before ++ piece :: after ∧
      inquiry.received + before.flatten.length ≤ inquiry.limit ∧
      inquiry.limit < inquiry.received + before.flatten.length + piece.length ∧
      ServerInquiry.collect before.length inquiry = (.ok (before.map
        fun piece => some (PayloadRef.new piece inquiry.sensitivity)), inquiry₁) ∧
      ServerInquiry.next inquiry₁ = (.err (.limit .capacityExceeded), inquiry') ∧
      inquiry'.link.machine.state = .invalid ∧ inquiry'.link.channel.stream = none ∧
      inquiry'.received = inquiry.received + before.flatten.length := by
  induction parts generalizing inquiry stream with
  | nil =>
      rw [List.flatten_nil, List.length_nil] at hover
      omega
  | cons piece parts ih =>
      rw [List.flatten_cons, List.length_append] at hover
      obtain ⟨noises, later, rfl, hnoises, hlater⟩ := hstream.cons
      rw [List.flatten_append, List.flatten_cons, List.append_assoc, List.append_assoc] at h
      -- either this line crosses the limit, or the crossing line is behind it
      by_cases hcross : inquiry.limit < inquiry.received + piece.length
      · obtain ⟨inquiry', hnext, hstate, hclosed, hreceived⟩ :=
          h.next_over hnoises (hparts piece List.mem_cons_self) hcross
        exact ⟨[], piece, parts, inquiry, inquiry', rfl, hspent, hcross, rfl, hnext, hstate, hclosed,
          hreceived⟩
      · obtain ⟨inquiry₁, hnext, hasking, hreceived, hsame⟩ :=
          h.next_data hnoises (hparts piece List.mem_cons_self) hmax (by omega)
        obtain ⟨before, next, after, inquiry₂, inquiry', rfl, hfits, hover', hcollect, hfail, hstate,
          hclosed, hreceived'⟩ := ih (fun p hp => hparts p (List.mem_cons_of_mem _ hp)) hlater
            hasking (by rw [hsame.limit]; exact hmax) (by rw [hsame.limit, hreceived]; omega)
            (by rw [hsame.limit, hreceived]; omega)
        rw [hsame.limit, hreceived] at hfits hover'
        rw [hsame.sensitivity] at hcollect
        refine ⟨piece :: before, next, after, inquiry₂, inquiry', rfl, ?_, ?_,
          serverCollect_succ hnext hcollect, hfail, hstate, hclosed, ?_⟩
        · rw [List.flatten_cons, List.length_append]
          omega
        · rw [List.flatten_cons, List.length_append]
          omega
        · rw [hreceived', hreceived, List.flatten_cons, List.length_append, Nat.add_assoc]

end Server

/-! ## §5  Both ends -/

section Both

variable {core : SessionCore} {input : Bytes} {inquiry : Inquiry}

/-- The calls before this one succeed; this one fails, writes nothing, and the
session is invalidated. -/
def Refuses (core : SessionCore) (inquiry : Inquiry) (before : List Bytes) (bytes : Bytes) : Prop :=
  ∃ core₁ inquiry₁ core₂, Action.forEach Inquiry.send before (core, inquiry) =
      (.ok (), (core₁, inquiry₁)) ∧ inquiry₁.sent = before.flatten.length ∧
    Inquiry.send bytes (core₁, inquiry₁) =
      (.err (.limit .capacityExceeded), (core₂, inquiry₁)) ∧
    core₂.channel.trace = core₁.channel.trace ∧ core₂.machine.state = .invalid ∧
    core₂.channel.stream = none

/-- The call that goes over the client's budget. -/
theorem Answering.refuses (h : Answering core input) (hsent : inquiry.sent = 0)
    (hmax : core.maxInquiryBytes ≤ usizeMax) {before : List Bytes} {bytes : Bytes}
    (hfits : before.flatten.length ≤ core.maxInquiryBytes)
    (hover : core.maxInquiryBytes < before.flatten.length + bytes.length) :
    Refuses core inquiry before bytes := by
  obtain ⟨core₁, hsend, hanswering, hsame⟩ :=
    @Answering.sendAll core input inquiry before h hmax (by omega)
  rw [hsent, Nat.zero_add] at hsend
  have hrefuse := @Answering.send_over core₁ input
    { inquiry with sent := before.flatten.length } bytes hanswering (by rw [hsame.budget]; exact hover)
  refine ⟨core₁, _, core₁.invalidate, hsend, rfl, hrefuse, rfl, ?_, rfl⟩
  show core₁.machine.invalidate.state = .invalid
  rw [ClientMachine.invalidate, if_neg (by rw [hanswering.state]; simp)]

/-- An answer within the client's budget, up to its terminator. -/
theorem Answering.answers (h : Answering core input) (hsent : inquiry.sent = 0)
    (hmax : core.maxInquiryBytes ≤ usizeMax) {payloads : List Bytes} (cancelled : Bool)
    (hfits : payloads.flatten.length ≤ core.maxInquiryBytes) :
    ∃ core₁ inquiry₁ core₂, Action.forEach Inquiry.send payloads (core, inquiry) =
        (.ok (), (core₁, inquiry₁)) ∧ inquiry₁.sent = payloads.flatten.length ∧
      Inquiry.finish cancelled inquiry₁ core₁ = (.ok (), core₂) ∧
      core₂.channel.trace = core.channel.trace ++
        ((payloads.flatMap pieces).map dataLine ++ [Inquiry.terminator cancelled]).map .wrote := by
  obtain ⟨core₁, hsend, hanswering, hsame⟩ :=
    @Answering.sendAll core input inquiry payloads h hmax (by omega)
  rw [hsent, Nat.zero_add] at hsend
  obtain ⟨core₂, hfinish, htrace, -, -⟩ :=
    @Answering.finish core₁ input { inquiry with sent := payloads.flatten.length } hanswering cancelled
  refine ⟨core₁, _, core₂, hsend, rfl, hfinish, ?_⟩
  rw [htrace, hsame.trace, List.map_append, List.append_assoc]
  rfl

theorem flatten_flatMap_pieces (payloads : List Bytes) :
    (payloads.flatMap pieces).flatten = payloads.flatten := by
  induction payloads with
  | nil => rfl
  | cons bytes payloads ih =>
      rw [List.flatMap_cons, List.flatten_append, ih, pieces_flatten, List.flatten_cons]

/-- The server returns the parts, then `None` for good and without reading, with
the count of the client and the outcome of its terminator. -/
def Returns (server : ServerInquiry) (parts : List Bytes) (count : ℕ) (cancelled : Bool) : Prop :=
  ∃ server' link,
    (∀ extra, ServerInquiry.collect (parts.length + extra + 1) server =
      (.ok (parts.map (fun piece => some (PayloadRef.new piece server.sensitivity)) ++
        List.replicate (extra + 1) none), server')) ∧
    server'.received = count ∧ server'.finish = (.ok (outcomeOf cancelled), link)

/-- The server returns the parts before the first that crosses its limit, fails
at that one, and is invalidated. -/
def Exhausts (server : ServerInquiry) (parts : List Bytes) : Prop :=
  ∃ before piece after server₁ server', parts = before ++ piece :: after ∧
    before.flatten.length ≤ server.limit ∧
    server.limit < before.flatten.length + piece.length ∧
    ServerInquiry.collect before.length server = (.ok (before.map
      fun piece => some (PayloadRef.new piece server.sensitivity)), server₁) ∧
    ServerInquiry.next server₁ = (.err (.limit .capacityExceeded), server') ∧
    server'.link.machine.state = .invalid ∧ server'.link.channel.stream = none

/-- **Inquiry fidelity.** A call that would exceed the client's limit writes
nothing and invalidates the session. Otherwise the count after each call is the
number of bytes sent so far, and the answer becomes data lines and a terminator.
A server that reads them, with comments and empty lines anywhere in between,
returns payloads that add up to the answer, if its own limit allows it, and ends
with the same count; else it fails at the first line that crosses the limit. -/
theorem inquiry_fidelity (payloads : List Bytes) (cancelled : Bool) (hcore : Answering core input)
    (hsent : inquiry.sent = 0) (hmax : core.maxInquiryBytes ≤ usizeMax) :
    (∀ before bytes after, payloads = before ++ bytes :: after →
      before.flatten.length ≤ core.maxInquiryBytes →
      core.maxInquiryBytes < before.flatten.length + bytes.length →
      Refuses core inquiry before bytes) ∧
    ((∀ before, before <+: payloads → before.flatten.length ≤ core.maxInquiryBytes) →
      (∀ before, before <+: payloads → ∃ core₁ inquiry₁,
        Action.forEach Inquiry.send before (core, inquiry) = (.ok (), (core₁, inquiry₁)) ∧
          inquiry₁.sent = before.flatten.length) ∧
      ∃ core₁ inquiry₁ core₂ parts, Action.forEach Inquiry.send payloads (core, inquiry) =
          (.ok (), (core₁, inquiry₁)) ∧
        Inquiry.finish cancelled inquiry₁ core₁ = (.ok (), core₂) ∧
        parts.flatten = payloads.flatten ∧
        core₂.channel.trace = core.channel.trace ++
          (parts.map dataLine ++ [Inquiry.terminator cancelled]).map .wrote ∧
        ∀ (server : ServerInquiry) (stream : List Bytes) (rest : Bytes), server.received = 0 →
          server.limit ≤ usizeMax →
          Noisy (parts.map dataLine ++ [Inquiry.terminator cancelled]) stream →
          Asking server (stream.flatten ++ rest) →
          (payloads.flatten.length ≤ server.limit → Returns server parts inquiry₁.sent cancelled) ∧
          (server.limit < payloads.flatten.length → Exhausts server parts)) := by
  constructor
  · intro before bytes after _ hfits hover
    exact hcore.refuses hsent hmax hfits hover
  intro hsums
  constructor
  · intro before hbefore
    obtain ⟨core₁, inquiry₁, -, hsend, hcount, -⟩ :=
      hcore.answers hsent hmax cancelled (hsums before hbefore)
    exact ⟨core₁, inquiry₁, hsend, hcount⟩
  obtain ⟨core₁, inquiry₁, core₂, hsend, hcount, hfinish, htrace⟩ :=
    hcore.answers hsent hmax cancelled (hsums payloads (List.prefix_refl _))
  have hflat := flatten_flatMap_pieces payloads
  have hparts : ∀ piece ∈ payloads.flatMap pieces, (dataLine piece).length ≤ maxLineBytes := by
    intro piece hpiece
    obtain ⟨bytes, -, hpiece⟩ := List.mem_flatMap.mp hpiece
    exact dataLine_length hpiece
  refine ⟨core₁, inquiry₁, core₂, payloads.flatMap pieces, hsend, hfinish, hflat, htrace, ?_⟩
  intro server stream rest hreceived hlimit hnoisy hasking
  constructor
  · intro hfits
    obtain ⟨server', houtcome, htotal, hsame, hcollect⟩ :=
      hasking.collect_fits hparts hnoisy hlimit (by rw [hreceived, hflat]; omega)
    have hdone := finish_ok (by rw [hsame.machine]; exact hasking.state) houtcome
    refine ⟨server', _, hcollect, ?_, hdone⟩
    rw [htotal, hreceived, hcount, hflat, Nat.zero_add]
  · intro hover
    obtain ⟨before, piece, after, server₁, server', hsplit, hfits, hcross, hcollect, hfail, hstate,
      hclosed, -⟩ := hasking.collect_over hparts hnoisy hlimit (by rw [hreceived]; omega)
        (by rw [hreceived, hflat]; omega)
    rw [hreceived, Nat.zero_add] at hfits hcross
    exact ⟨before, piece, after, server₁, server', hsplit, hfits, hcross, hcollect, hfail, hstate,
      hclosed⟩

end Both

/-- A client that may send four bytes. -/
def answeringCore : SessionCore where
  channel := Channel.new ⟨[], []⟩ []
  machine := ⟨.inquiry, .command⟩
  ioUncertain := false
  sensitivity := .public_
  commandTimeout := 30
  inquiryTimeout := 30
  maxInquiryBytes := 4
  horizon := []
  allocations := []
  log := []

def answeringInquiry : Inquiry := ⟨asBytes "PIN", 3, 0, false⟩

/-- Its answer with a comment and an empty line, cut inside a line. -/
def askingChunks : List Chunk :=
  [⟨asBytes "D a%0A\n# no", by decide, by decide⟩,
    ⟨asBytes "te\n\nD %25\nEND\n", by decide, by decide⟩]

def askingInquiry : ServerInquiry :=
  ServerInquiry.new ⟨Channel.new ⟨askingChunks.map .data, []⟩ [], ⟨.inquiry, .handler⟩⟩ .secret 3

/-- What the client writes for `a`, LF and a percent sign. -/
def answerLines : List Bytes := [asBytes "D a%0A\n", asBytes "D %25\n", asBytes "END\n"]

theorem inquiry_fidelity_percent :
    ∃ (parts : List Bytes) (server' : ServerInquiry) (link : Link), parts.flatten = [97, 10, 37] ∧
      ServerInquiry.collect (parts.length + 0 + 1) askingInquiry =
        (.ok (parts.map (fun piece => some (.secret piece)) ++ [none]), server') ∧
      server'.received = 3 ∧ server'.finish = (.ok .completed, link) := by
  have hcore : Answering answeringCore [] := ⟨ideal_new [], rfl, rfl⟩
  obtain ⟨-, hrest⟩ := inquiry_fidelity [[97, 10], [37]] false hcore
    (rfl : answeringInquiry.sent = 0) (by decide)
  have hsums : ∀ before : List Bytes, before <+: [[97, 10], [37]] →
      before.flatten.length ≤ answeringCore.maxInquiryBytes := by
    intro before hbefore
    exact Nat.le_trans hbefore.flatten.length_le (by decide)
  obtain ⟨-, core₁, inquiry₁, core₂, parts, hsend, hfinish, hflat, htrace, hserver⟩ :=
    hrest hsums
  have hwire : parts.map dataLine ++ [Inquiry.terminator false] = answerLines := by
    have hrun : (Inquiry.finish false
        (Action.forEach Inquiry.send [[97, 10], [37]] (answeringCore, answeringInquiry)).2.2
        (Action.forEach Inquiry.send [[97, 10], [37]] (answeringCore, answeringInquiry)).2.1
          ).2.channel.trace = answerLines.map .wrote := by decide +kernel
    rw [hsend, hfinish] at hrun
    have hsame := htrace.symm.trans hrun
    exact List.map_injective_iff.mpr (fun a b h => Io.wrote.inj h) hsame
  rw [hwire] at hserver
  have hnoisy : Noisy answerLines
      [asBytes "D a%0A\n", asBytes "# note\n", asBytes "\n", asBytes "D %25\n", asBytes "END\n"] :=
    .line (.noise (.comment (asBytes " note") (by decide) (by decide))
      (.noise .empty (.line (.line .nil))))
  have hasking : Asking askingInquiry ([asBytes "D a%0A\n", asBytes "# note\n", asBytes "\n",
      asBytes "D %25\n", asBytes "END\n"].flatten ++ []) := ⟨ideal_new askingChunks, rfl, rfl⟩
  obtain ⟨server', link, hcollect, hcount, hdone⟩ :=
    (hserver askingInquiry _ [] rfl (by decide) hnoisy hasking).1 (by decide)
  have htotal : inquiry₁.sent = 3 := by
    have hrun : (Action.forEach Inquiry.send [[97, 10], [37]]
        (answeringCore, answeringInquiry)).2.2.sent = 3 := by decide +kernel
    rwa [hsend] at hrun
  exact ⟨parts, server', link, hflat, hcollect 0, hcount.trans htotal, hdone⟩

end Assuan
