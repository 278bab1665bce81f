import Assuan.Fidelity.Response
import Assuan.Server.Packing
import Assuan.Transport.Wiping

/-!
# HELP loses nothing

The comment lines of an entry, put together again, are the name, a space and the
description. Each of them is a line that the encoder takes and the parser gives
back, and whatever becomes of the stream, what reaches it is a prefix of them.
-/

namespace Assuan

open Channel LineBuffer

/-! ## §1  One line -/

def helpLine (text : String) : Bytes := asBytes ("# " ++ text ++ "\n")

/-- The payload of the comment. The space belongs to it. -/
def helpComment (text : String) : ServerLine := .comment (asBytes (" " ++ text))

/-- A text that fits on a comment line. -/
structure Listable (text : String) : Prop where
  fits : (asBytes text).length ≤ maxLineBytes - 3
  clean : isCleanLine (asBytes text) = true

section Lines

variable {text : String}

theorem helpComment_body (text : String) :
    responseBody (helpComment text) = asBytes ("# " ++ text) := by
  have hhash : asBytes "# " = asBytes "#" ++ asBytes " " := rfl
  rw [helpComment, responseBody, asBytes_append, asBytes_append, hhash, List.append_assoc]

theorem helpComment_line (text : String) : responseBody (helpComment text) ++ [lf] = helpLine text := by
  rw [helpComment_body, helpLine, asBytes_append _ "\n"]
  rfl

theorem helpLine_length (text : String) : (helpLine text).length = (asBytes text).length + 3 := by
  have hsharp : (asBytes "# ").length = 2 := rfl
  have hend : (asBytes "\n").length = 1 := rfl
  rw [helpLine, asBytes_append, asBytes_append, List.length_append, List.length_append, hsharp, hend]
  omega

theorem Listable.encodable (h : Listable text) : Encodable (helpComment text) := by
  have hlen := helpLine_length text
  have hfits := h.fits
  have hlimit : 3 ≤ maxLineBytes := by decide
  rw [← helpComment_line, List.length_append, List.length_singleton] at hlen
  refine encodable_iff.mpr ⟨trivial, ?_, by omega⟩
  rw [helpComment_body, asBytes_append, isCleanLine_append, h.clean]
  rfl

theorem Listable.encode (h : Listable text) :
    encoded (encodeResponse (helpComment text)) = .ok (helpLine text) := by
  rw [← helpComment_line]
  exact h.encodable.cases.1

/-- Read from the wire, the line is the comment. -/
theorem Listable.parse (h : Listable text) :
    parseServerLine (stripTerminator (helpLine text)) = .ok (helpComment text) := by
  obtain ⟨-, hvalid, hclean, -⟩ := h.encodable.cases
  rw [← helpComment_line, stripTerminator_clean hclean]
  exact parseServerLine_responseBody hvalid hclean

/-- `body[1..=len]` is inside the array. -/
theorem Listable.commentBody (h : Listable text) :
    Link.commentBody (asBytes text) = some (asBytes (" " ++ text)) := by
  have hfits := h.fits
  have hlimit : 3 ≤ maxLineBytes := by decide
  have hspace : (Buffer.zero maxLineBytes).set 0 space = some (Buffer.pad maxLineBytes [space]) := by
    rw [← Buffer.pad_nil]
    exact @Buffer.set_pad maxLineBytes [] space (by decide)
  have hcopy : (Buffer.pad maxLineBytes [space]).copyAt 1 (asBytes text) =
      some (Buffer.pad maxLineBytes ([space] ++ asBytes text)) :=
    @Buffer.copyAt_pad maxLineBytes [space] (asBytes text) (by rw [List.length_singleton]; omega)
  have hlen : ([space] ++ asBytes text).length = (asBytes text).length + 1 := by
    rw [List.length_append, List.length_singleton, Nat.add_comm]
  have hslice : (Buffer.pad maxLineBytes ([space] ++ asBytes text)).slice 0 ((asBytes text).length + 1) =
      some ([space] ++ asBytes text) := by
    rw [Buffer.slice_pad (Nat.zero_le _) (by omega) (by omega), ← hlen, List.take_length,
      List.drop_zero]
  simp only [Link.commentBody, hspace, hcopy, hslice, Option.bind_eq_bind, Option.bind_some]
  rw [asBytes_append]
  rfl

/-- The body of the `IoOperation` of `comment`. -/
theorem Listable.comment (h : Listable text) : Link.comment (asBytes text) = Link.ioOperation (do
    Link.sendResponse .comment
    Link.writeLine (helpLine text)) := by
  rw [Link.comment, h.commentBody, Outcome.index_some, Action.lift_ok_bind]
  show Link.ioOperation (Link.sendLine (helpComment text)) = _
  rw [Link.sendLine, h.encode, Outcome.mapErr_ok, Action.lift_ok_bind]
  rfl

theorem Listable.wire (h : Listable text) : validateWireLine (helpLine text) = .ok () := by
  rw [← helpComment_line]
  exact h.encodable.wire

end Lines

/-! ## §2  The lines on the wire -/

/-- However the sending of `lines` ends, no index was out of range and what was
written is a prefix of the lines; all of them are there when it succeeds. -/
structure Emits (lines : List Bytes) (before : Channel) (o : Outcome HandlerError Unit) (link : Link) :
    Prop where
  standing : Standing link.channel
  safe : o ≠ .panic
  sent : ∃ out, out <+: lines.flatten ∧ written link.channel.trace = written before.trace ++ out
  whole : o = .ok () → link.channel.trace = before.trace ++ lines.map .wrote

section Emitting

variable {before : Channel} {link link' : Link} {lines : List Bytes} {line : Bytes}
  {o : Outcome HandlerError Unit}

theorem emits_nil (h : Standing link.channel) : Emits [] link.channel (.ok ()) link :=
  ⟨h, by simp, ⟨[], List.nil_prefix, by simp⟩, fun _ => by simp⟩

theorem Emits.next (h : Emits [line] before (.ok ()) link) (h' : Emits lines link.channel o link') :
    Emits (line :: lines) before o link' := by
  have hfirst := h.whole rfl
  obtain ⟨out, hout, hwritten⟩ := h'.sent
  refine ⟨h'.standing, h'.safe, ⟨line ++ out, ?_, ?_⟩, ?_⟩
  · rw [List.flatten_cons]
    exact (List.prefix_append_right_inj line).mpr hout
  · rw [hwritten, hfirst, written_append, written_lines, List.flatten_singleton, List.append_assoc]
  · intro hok
    rw [h'.whole hok, hfirst, List.append_assoc]
    rfl

theorem Emits.stopped (ho : o.Failed) (h : Emits [line] before o link) (lines : List Bytes) :
    Emits (line :: lines) before o.relabel link := by
  obtain ⟨out, hout, hwritten⟩ := h.sent
  refine ⟨h.standing, ho.relabel_ne_panic h.safe, ⟨out, ?_, hwritten⟩, ?_⟩
  · rw [List.flatten_singleton] at hout
    rw [List.flatten_cons]
    exact hout.trans (List.prefix_append _ _)
  · intro hok
    exact absurd hok (ho.relabel ())

/-- The `Drop` of an operation writes nothing. -/
theorem Emits.abandon (ho : o.Failed) (h : Emits lines before o link) :
    Emits lines before o link.abandon :=
  ⟨standing_close _, h.safe, h.sent, fun hok => absurd hok (ho ())⟩

theorem writeLine_emits (h : Standing link.channel) (line : Bytes) :
    Action.Post (Link.writeLine line) link (Emits [line] link.channel) := by
  apply Action.Post.mapErr
  apply Action.Post.zoom
  have heffect := writeLine_effect h line
  refine ⟨heffect.standing, ?_, ?_, ?_⟩
  · rw [Ne, Outcome.mapErr_eq_panic]
    exact heffect.safe
  · rcases heffect.trace with hsame | ⟨n, hwrote⟩
    · exact ⟨[], List.nil_prefix, by simp [hsame]⟩
    · refine ⟨line.take n, ?_, ?_⟩
      · rw [List.flatten_singleton]
        exact List.take_prefix n line
      · show written (Channel.writeLine line link.channel).2.trace = _
        rw [hwrote, written_append, written_wrote]
  · intro hok
    exact (heffect.sent (Outcome.mapErr_eq_ok.mp hok)).1

/-- The machine may refuse, and then nothing is sent. -/
theorem comment_emits {text : String} (htext : Listable text) (h : Standing link.channel) :
    Action.Post (Link.comment (asBytes text)) link (Emits [helpLine text] link.channel) := by
  rw [htext.comment]
  have hbody : Action.Post (do
      Link.sendResponse .comment
      Link.writeLine (helpLine text)) link (Emits [helpLine text] link.channel) := by
    rcases Link.sendResponse_cases link .comment with ⟨-, hok⟩ | ⟨e, hrefused⟩
    · apply Action.Post.bind_ok hok
      exact @writeLine_emits
        { link with machine := (link.machine.sendResponse .comment).2 } h (helpLine text)
    · apply Action.Post.bind_failed hrefused (by simp)
      exact ⟨h, by simp [Outcome.relabel], ⟨[], List.nil_prefix, by simp⟩, by simp [Outcome.relabel]⟩
  apply Action.Post.onFailure hbody
  · intro u link' hemits
    exact hemits
  · intro o link' ho hemits
    exact hemits.abandon ho

theorem comments_emit {texts : List String} (htexts : ∀ text ∈ texts, Listable text)
    (h : Standing link.channel) :
    Action.Post (Action.forEach Link.comment (texts.map asBytes)) link
      (Emits (texts.map helpLine) link.channel) := by
  induction texts generalizing link with
  | nil => exact Action.Post.pure (emits_nil h)
  | cons text texts ih =>
      have hrest : ∀ t ∈ texts, Listable t := fun t ht => htexts t (List.mem_cons_of_mem _ ht)
      rw [List.map_cons, List.map_cons, Action.forEach]
      apply Action.Post.bind (comment_emits (htexts text List.mem_cons_self) h)
      · intro u link' hfirst
        apply Action.Post.mono (ih hrest hfirst.standing)
        intro o link'' hlater
        exact hfirst.next hlater
      · intro o link' ho hfirst
        exact Emits.stopped ho hfirst _

/-! ### Without faults -/

theorem Handling.comment {input : Bytes} {text : String} (htext : Listable text)
    (h : Handling link input) :
    ∃ link', Link.comment (asBytes text) link = (.ok (), link') ∧ Handling link' input := by
  have hanswer : link.machine.sendResponse .comment = (.ok (), link.machine) := by
    simp [ServerMachine.sendResponse, h.state]
  obtain ⟨ch, hwrite, hideal, -⟩ := link_writeLine h.ideal htext.wire
  refine ⟨{ link with channel := ch }, ?_, hideal, h.state⟩
  rw [htext.comment]
  apply Action.onFailure_ok
  rw [Action.bind_ok (sendResponse_same hanswer), hwrite]

theorem Handling.comments {input : Bytes} {texts : List String}
    (htexts : ∀ text ∈ texts, Listable text) (h : Handling link input) :
    ∃ link', Action.forEach Link.comment (texts.map asBytes) link = (.ok (), link') ∧
      Handling link' input := by
  induction texts generalizing link with
  | nil => exact ⟨link, rfl, h⟩
  | cons text texts ih =>
      obtain ⟨link₁, hfirst, hhandling⟩ := h.comment (htexts text List.mem_cons_self)
      obtain ⟨link', hrest, hhandling'⟩ :=
        ih (fun t ht => htexts t (List.mem_cons_of_mem _ ht)) hhandling
      refine ⟨link', ?_, hhandling'⟩
      rw [List.map_cons, Action.forEach, Action.bind_ok hfirst, hrest]

end Emitting

/-! ## §3  Entries -/

section Entries

variable {κ : Type} {name description : String}

theorem register_validateName {registry registry' : Registry κ} {handler : Handler κ}
    (h : registry.register handler = .ok registry') : validateName handler.name = .ok () := by
  obtain ⟨u, hname, -⟩ := Outcome.bind_eq_ok.mp h
  exact hname

theorem entryTexts_listable (hname : isToken (asBytes name) = true)
    (hdescription : isCleanLine (asBytes description) = true) :
    ∀ text ∈ Link.entryTexts name description, Listable text := by
  have hclean : isCleanLine (asBytes (name ++ " " ++ description)) = true := by
    rw [asBytes_append, asBytes_append, isCleanLine_append, isCleanLine_append,
      isToken_clean hname, hdescription]
    rfl
  intro text htext
  refine ⟨(Link.entryTexts_fits htext).2, isCleanLine_iff.mpr ?_⟩
  intro b hb
  exact isCleanLine_iff.mp hclean b (Link.entryTexts_mem htext hb)

/-- The check of `entry` passes. -/
theorem entry_comments (hname : isToken (asBytes name) = true)
    (hdescription : isCleanLine (asBytes description) = true) :
    Link.entry name description =
      Action.forEach Link.comment ((Link.entryTexts name description).map asBytes) := by
  have hnew : Command.new name (asBytes description) =
      .ok ⟨name, asBytes description, hname, hdescription⟩ :=
    Command.new_eq_ok.mpr ⟨rfl, rfl⟩
  rw [Link.entry_eq, hnew, Outcome.mapErr_ok, Action.lift_ok_bind]

theorem Handling.entry {link : Link} {input : Bytes} (hname : isToken (asBytes name) = true)
    (hdescription : isCleanLine (asBytes description) = true) (h : Handling link input) :
    ∃ link', Link.entry name description link = (.ok (), link') ∧ Handling link' input ∧
      link'.channel.trace =
        link.channel.trace ++ ((Link.entryTexts name description).map helpLine).map .wrote := by
  have hlistable := entryTexts_listable hname hdescription
  obtain ⟨link', hrun, hhandling⟩ := h.comments hlistable
  have hemits := (comments_emit hlistable h.ideal.standing).elim hrun
  rw [← entry_comments hname hdescription] at hrun
  exact ⟨link', hrun, hhandling, hemits.whole rfl⟩

/-- **HELP loses nothing.** For a name that `register` accepts and any description
without NUL, CR and LF, the texts of the lines are known: none is empty, each line is
within the limit, encodes and parses back as the comment it was, and together they
are the entry. Nothing else is ever written, whatever the channel went through
before; without faults all of it is. -/
theorem entry_lossless {registry registry' : Registry κ} {handler : Handler κ}
    (hregister : registry.register handler = .ok registry')
    (hdescription : ∀ b ∈ asBytes description, b ≠ 0 ∧ b ≠ cr ∧ b ≠ lf) :
    ∃ texts : List String,
      String.join texts = handler.name ++ " " ++ description ∧
      (∀ text ∈ texts, text ≠ "" ∧ (helpLine text).length ≤ 1000 ∧
        encoded (encodeResponse (helpComment text)) = .ok (helpLine text) ∧
        parseServerLine (stripTerminator (helpLine text)) = .ok (helpComment text)) ∧
      (∀ stream clock ops machine,
        let link : Link := ⟨performAll ops (Channel.new stream clock), machine⟩
        let ended := Link.entry handler.name description link
        Emits (texts.map helpLine) link.channel ended.1 ended.2) ∧
      ∀ link input, Handling link input → ∃ link',
        Link.entry handler.name description link = (.ok (), link') ∧ Handling link' input ∧
        link'.channel.trace = link.channel.trace ++ (texts.map helpLine).map .wrote := by
  obtain ⟨htoken, -, -⟩ := validateName_eq_ok (register_validateName hregister)
  have hclean := isCleanLine_iff.mpr hdescription
  have hlistable := entryTexts_listable htoken hclean
  have hentry := entry_comments htoken hclean
  refine ⟨Link.entryTexts handler.name description, Link.entryTexts_join, ?_, ?_, ?_⟩
  · intro text htext
    obtain ⟨hne, hfits⟩ := Link.entryTexts_fits htext
    have htaken := hlistable text htext
    refine ⟨hne, ?_, htaken.encode, htaken.parse⟩
    rw [helpLine_length]
    exact Nat.add_le_of_le_sub (by decide) hfits
  · intro stream clock ops machine link ended
    have hstanding : Standing link.channel :=
      (performAll_tidied ops ⟨standing_new stream clock, .new⟩).standing
    show Action.Post (Link.entry handler.name description) link _
    rw [hentry]
    exact comments_emit hlistable hstanding
  · intro link input h
    exact h.entry htoken hclean

/-- Characters of two bytes each. -/
def accents (n : ℕ) : String := String.ofList (List.replicate n 'é')

theorem accents_clean (n : ℕ) : ∀ b ∈ asBytes (accents n), b ≠ 0 ∧ b ≠ cr ∧ b ≠ lf := by
  intro b hb
  rw [accents, asBytes_ofList] at hb
  obtain ⟨ch, hch, hb⟩ := List.mem_flatMap.mp hb
  have hbytes : String.utf8EncodeChar 'é' = [195, 169] := rfl
  rw [List.eq_of_mem_replicate hch, hbytes] at hb
  rcases List.mem_pair.mp hb with rfl | rfl <;> decide

theorem accents_length (n : ℕ) : (asBytes (accents n)).length = n * 2 := by
  have hsize : Char.utf8Size 'é' = 2 := rfl
  rw [accents, Link.length_asBytes_ofList]
  induction n with
  | zero => rfl
  | succ n ih =>
      rw [List.replicate_succ, totalSize, ih, hsize]
      omega

/-- A session inside a command. -/
def commandLink : Link := ⟨Channel.new ⟨[], []⟩ [], ⟨.handler, .greeting⟩⟩

/-- An entry that takes more than one line. -/
theorem entry_lossless_accents :
    ∃ texts : List String, 2 ≤ texts.length ∧ String.join texts = "SHOW" ++ " " ++ accents 600 ∧
      ∃ link', Link.entry "SHOW" (accents 600) commandLink = (.ok (), link') ∧
        written link'.channel.trace = (texts.map helpLine).flatten := by
  obtain ⟨registry', hregister⟩ : ∃ registry',
      Registry.register Registry.new ⟨"SHOW", "", ()⟩ = .ok registry' := ⟨_, rfl⟩
  obtain ⟨texts, hjoin, hlines, -, hrun⟩ := entry_lossless hregister (accents_clean 600)
  obtain ⟨link', hentry, -, htrace⟩ := hrun commandLink [] ⟨ideal_new [], rfl⟩
  refine ⟨texts, ?_, hjoin, link', hentry, ?_⟩
  · -- one line is too short for the whole
    have hlength : (asBytes (String.join texts)).length = (asBytes ("SHOW" ++ " ")).length + 600 * 2 := by
      rw [hjoin, asBytes_append, List.length_append, accents_length]
    rcases texts with - | ⟨text, - | ⟨text', texts⟩⟩
    · have hempty : (asBytes (String.join [])).length = 0 := rfl
      omega
    · have hline := (hlines text List.mem_cons_self).2.1
      rw [helpLine_length] at hline
      rw [String.join_cons, String.join_nil, String.append_empty] at hlength
      omega
    · simp
  · rw [htrace, written_append, written_lines]
    rfl

end Entries

end Assuan
