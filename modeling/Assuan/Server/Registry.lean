import Assuan.Protocol.RoundTrip
import Assuan.Protocol.State

/-!
# Requests and handlers (`registry.rs`, `inquiry.rs`, `session.rs`)

Three tests decide what becomes of a command name: `validate_name` when a
handler is registered, `request_kind` when a line arrives, and the `match` of
`Session::drive` when the command is dispatched. They are modelled apart here,
and the last section says for which names they agree.
-/

namespace Assuan

/-! ## §1  The registry -/

inductive RegistryError : Type where
  | invalidName
  | reserved (name : String)
  | duplicate (name : String)
  | invalidDescription
deriving DecidableEq, Repr

/-- A handler's metadata and its callback, of any type. -/
structure Handler (κ : Type) : Type where
  name : String
  description : String
  call : κ

/-- The built-in names. -/
def reservedNames : List String := ["NOP", "BYE", "HELP", "RESET", "OPTION"]

def validateName (name : String) : Outcome RegistryError Unit := do
  let _ ← (Command.new name []).mapErr fun _ => RegistryError.invalidName
  if (asBytes name).length ≥ maxLineBytes then .err .invalidName
  else if name ∈ reservedNames then .err (.reserved name)
  else .ok ()

def validateDescription (value : String) : Outcome RegistryError Unit :=
  if (asBytes value).any isForbidden then .err .invalidDescription else .ok ()

/-- The handlers by name. A name occurs once. -/
structure Registry (κ : Type) : Type where
  handlers : List (String × Handler κ)
  nodup : (handlers.map Prod.fst).Nodup

namespace Registry

variable {κ : Type}

def new : Registry κ := ⟨[], List.nodup_nil⟩

def get (registry : Registry κ) (name : String) : Option (Handler κ) :=
  (registry.handlers.find? fun entry => entry.1 = name).map Prod.snd

def register (registry : Registry κ) (handler : Handler κ) :
    Outcome RegistryError (Registry κ) := do
  validateName handler.name
  validateDescription handler.description
  if h : handler.name ∈ registry.handlers.map Prod.fst then .err (.duplicate handler.name)
  else
    .ok ⟨registry.handlers ++ [(handler.name, handler)], by
      rw [List.map_append, List.map_singleton]
      exact List.nodup_append.mpr ⟨registry.nodup, List.nodup_singleton _, by
        intro name hname _ hmem
        rw [List.mem_singleton.mp hmem]
        rintro rfl
        exact h hname⟩⟩

/-- A sequence of registrations, all of which must succeed. -/
def registerAll (registry : Registry κ) : List (Handler κ) → Outcome RegistryError (Registry κ)
  | [] => .ok registry
  | handler :: handlers => do
      let registry ← registry.register handler
      registry.registerAll handlers

end Registry

/-! ## §2  Classifying a request line -/

def startsWith (tag line : Bytes) : Bool := (stripPrefix tag line).isSome

/-- The names the classifier keeps for itself. -/
def protocolNames : List String := ["END", "CAN", "D"]

def requestKind (line : Bytes) : Outcome ProtocolError RequestKind :=
  if line.any isForbidden then .err .invalidLine
  else if line = [] then .ok .empty
  else if startsWith (asBytes "#") line then .ok .comment
  else if startsWith (asBytes "D ") line then .ok .data
  else if line = asBytes "END" then .ok .end_
  else if line = asBytes "CAN" then .ok .can
  else do
    let command ← Command.parse line
    if command.name ∈ protocolNames then .err .invalidLine else .ok .command

/-! ## §3  Dispatching a command -/

/-- The arms of the `match` on the command name. -/
inductive Route (κ : Type) : Type where
  | nothing
  | help
  | option
  | reset
  | handler (handler : Handler κ)
  | unknown

def route {κ : Type} (registry : Registry κ) (name : String) : Route κ :=
  if name = "NOP" ∨ name = "BYE" then .nothing
  else if name = "HELP" then .help
  else if name = "OPTION" then .option
  else if name = "RESET" then .reset
  else
    match registry.get name with
    | some handler => .handler handler
    | none => .unknown

/-! ## §4  Which handlers can be reached -/

section Reach

variable {κ : Type}

theorem validateName_eq_ok {name : String} (h : validateName name = .ok ()) :
    isToken (asBytes name) = true ∧ (asBytes name).length < maxLineBytes ∧
      name ∉ reservedNames := by
  unfold validateName at h
  obtain ⟨command, hnew, h⟩ := Outcome.bind_eq_ok.mp h
  have htoken : isToken (asBytes name) = true := by
    by_contra hbad
    rw [Command.new, dif_neg hbad] at hnew
    exact absurd hnew (by simp)
  by_cases hlen : (asBytes name).length ≥ maxLineBytes
  · simp [hlen] at h
  rw [if_neg hlen] at h
  by_cases hreserved : name ∈ reservedNames
  · simp [hreserved] at h
  · exact ⟨htoken, by omega, hreserved⟩

/-- Every key of the registry has passed `validate_name`. -/
def KeysValid (registry : Registry κ) : Prop :=
  ∀ entry ∈ registry.handlers, validateName entry.1 = .ok ()

theorem register_keysValid {registry registry' : Registry κ} {handler : Handler κ}
    (h : KeysValid registry) (hreg : registry.register handler = .ok registry') :
    KeysValid registry' := by
  unfold Registry.register at hreg
  obtain ⟨u, hname, hreg⟩ := Outcome.bind_eq_ok.mp hreg
  obtain ⟨u', -, hreg⟩ := Outcome.bind_eq_ok.mp hreg
  by_cases hdup : handler.name ∈ registry.handlers.map Prod.fst
  · simp [hdup] at hreg
  · rw [dif_neg hdup] at hreg
    rw [← Outcome.ok.inj hreg]
    intro entry hentry
    rcases List.mem_append.mp hentry with hentry | hentry
    · exact h entry hentry
    · rw [List.mem_singleton.mp hentry]
      exact hname

theorem registerAll_keysValid {handlers : List (Handler κ)} {registry registry' : Registry κ}
    (h : KeysValid registry) (hreg : registry.registerAll handlers = .ok registry') :
    KeysValid registry' := by
  induction handlers generalizing registry with
  | nil =>
      rw [← Outcome.ok.inj hreg]
      exact h
  | cons handler handlers ih =>
      obtain ⟨mid, hfirst, hrest⟩ := Outcome.bind_eq_ok.mp hreg
      exact ih (register_keysValid h hfirst) hrest

theorem get_eq_some {registry : Registry κ} {name : String} {handler : Handler κ}
    (h : registry.get name = some handler) : (name, handler) ∈ registry.handlers := by
  unfold Registry.get at h
  obtain ⟨entry, hfind, rfl⟩ := Option.map_eq_some_iff.mp h
  have hname : entry.1 = name := by simpa using List.find?_some hfind
  rw [← hname]
  exact List.mem_of_find?_eq_some hfind

theorem route_handler {registry : Registry κ} {name : String} {handler : Handler κ}
    (hname : name ∉ reservedNames) (hget : registry.get name = some handler) :
    route registry name = .handler handler := by
  simp only [reservedNames, List.mem_cons, List.not_mem_nil, or_false, not_or] at hname
  obtain ⟨hnop, hbye, hhelp, hreset, hoption⟩ := hname
  rw [route, if_neg (by simp [hnop, hbye]), if_neg hhelp, if_neg hoption, if_neg hreset, hget]

/-- The line of a command, framed, parses as the command. -/
theorem parse_commandBody (command : Command) :
    Command.parse (commandBody command) = .ok command := by
  have hspace := isToken_no_space command.name_token
  have hclean : isCleanLine (commandBody command) = true := by
    unfold commandBody optionalField
    split
    · simp [isToken_clean command.name_token]
    · simp [isToken_clean command.name_token, command.args_clean, isForbidden, space, cr, lf]
  rw [Command.parse_eq_ok]
  refine ⟨hclean, ?_⟩
  unfold commandBody optionalField
  split
  · next hnil => rw [List.append_nil, splitField_of_not_mem hspace, hnil]
  · rw [splitField_append hspace]

theorem splitField_commandBody (command : Command) :
    splitField (commandBody command) = (asBytes command.name, command.args) :=
  (Command.parse_eq_ok.mp (parse_commandBody command)).2

theorem commandBody_clean (command : Command) : isCleanLine (commandBody command) = true :=
  (Command.parse_eq_ok.mp (parse_commandBody command)).1

/-- A command line that is the keyword `word` is the command `word`. -/
theorem name_of_commandBody_eq {command : Command} {word : String}
    (hword : space ∉ asBytes word) (h : commandBody command = asBytes word) :
    command.name = word := by
  have hsplit := splitField_commandBody command
  rw [h, splitField_of_not_mem hword] at hsplit
  exact (asBytes_injective (Prod.mk.inj hsplit).1).symm

theorem name_of_commandBody_data {command : Command}
    (h : startsWith (asBytes "D ") (commandBody command) = true) : command.name = "D" := by
  unfold startsWith at h
  obtain ⟨rest, hrest⟩ := Option.isSome_iff_exists.mp h
  have hline : commandBody command = asBytes "D" ++ space :: rest := by
    rw [stripPrefix_eq_some.mp hrest]
    rfl
  have hsplit := splitField_commandBody command
  rw [hline, splitField_append (by decide)] at hsplit
  exact (asBytes_injective (Prod.mk.inj hsplit).1).symm

theorem commandBody_head (command : Command) :
    ∃ b rest, commandBody command = b :: rest ∧ b ≠ 35 := by
  have htoken := command.name_token
  cases hname : asBytes command.name with
  | nil => simp [hname, isToken] at htoken
  | cons b rest =>
      refine ⟨b, rest ++ optionalField command.args, by simp [commandBody, hname], ?_⟩
      rintro rfl
      simp [hname, isToken] at htoken

/-- The classifier takes a command line for a command unless its name is one of
its own keywords. -/
theorem requestKind_commandBody (command : Command) :
    requestKind (commandBody command) = .ok .command ↔ command.name ∉ protocolNames := by
  have hforbidden : (commandBody command).any isForbidden = false := by
    simpa [isCleanLine] using commandBody_clean command
  obtain ⟨b, rest, hhead, hcomment⟩ := commandBody_head command
  have hnil : commandBody command ≠ [] := by simp [hhead]
  have hhash : startsWith (asBytes "#") (commandBody command) = false := by
    rw [startsWith, hhead, asBytes_hash]
    simp [stripPrefix_cons, hcomment]
  unfold requestKind
  rw [if_neg (by simp [hforbidden]), if_neg hnil, if_neg (by simp [hhash])]
  by_cases hdata : startsWith (asBytes "D ") (commandBody command) = true
  · rw [if_pos hdata]
    simp [protocolNames, name_of_commandBody_data hdata]
  rw [if_neg hdata]
  by_cases hend : commandBody command = asBytes "END"
  · rw [if_pos hend]
    simp [protocolNames, name_of_commandBody_eq (by decide) hend]
  rw [if_neg hend]
  by_cases hcan : commandBody command = asBytes "CAN"
  · rw [if_pos hcan]
    simp [protocolNames, name_of_commandBody_eq (by decide) hcan]
  rw [if_neg hcan, parse_commandBody, Outcome.ok_bind]
  by_cases hname : command.name ∈ protocolNames
  · rw [if_pos hname]
    simp [hname]
  · rw [if_neg hname]
    simp [hname]

/-- A line on its way to a handler: it is classified as a command, the machine
accepts it, it parses as the command that was sent, and no other arm takes it. -/
structure Reaches (registry : Registry κ) (machine : ServerMachine) (line : Bytes)
    (command : Command) (handler : Handler κ) : Prop where
  kind : requestKind line = .ok .command
  accepted : (machine.receiveRequest .command).1 = .ok ()
  parsed : Command.parse line = .ok command
  routed : route registry command.name = .handler handler

/-- What a receiver's framer makes of an encoded command. -/
theorem encodeCommand_frame {command : Command} {output out : LineArray} {n : ℕ}
    (hencode : encodeCommand command output = (.ok n, out)) :
    LineBuffer.stripTerminator (out.bytes.take n) = commandBody command := by
  rcases encodeCommand_writesLine command output with ⟨out', hrun, -, hclean, -, hw⟩ | ⟨⟨e, he⟩, -⟩
  · rw [hencode] at hrun
    obtain ⟨hn, rfl⟩ := Prod.mk.inj hrun
    have htake := hw.take
    rw [List.length_append, List.length_singleton] at htake
    rw [Outcome.ok.inj hn, htake, stripTerminator_clean hclean]
  · rw [hencode] at he
    exact absurd (congrArg Prod.fst he) (by simp)

/-- Only the classifier stands between a command and the handler of its name. -/
theorem reaches_commandBody {registry : Registry κ} {handler : Handler κ} {command : Command}
    (hvalid : validateName command.name = .ok ()) (hget : registry.get command.name = some handler)
    {machine : ServerMachine} (hready : machine.state = .ready) :
    Reaches registry machine (commandBody command) command handler ↔
      command.name ∉ protocolNames := by
  rw [← requestKind_commandBody]
  constructor
  · exact fun h => h.kind
  · intro hkind
    refine ⟨hkind, ?_, parse_commandBody command, ?_⟩
    · simp [ServerMachine.receiveRequest, hready]
    · exact route_handler (validateName_eq_ok hvalid).2.2 hget

/-- **When a registered handler can be reached.** In every registry built by
successful registrations, a ready session that reads the encoded and framed
command of a registered name invokes its handler with the same arguments if and
only if the name is none of `END`, `CAN` and `D`. -/
theorem registered_reaches_iff {handlers : List (Handler κ)} {registry : Registry κ}
    (hbuilt : Registry.new.registerAll handlers = .ok registry) {name : String}
    {handler : Handler κ} (hget : registry.get name = some handler) {args : Bytes}
    {command : Command} (hnew : Command.new name args = .ok command) {output out : LineArray}
    {n : ℕ} (hencode : encodeCommand command output = (.ok n, out)) {machine : ServerMachine}
    (hready : machine.state = .ready) :
    Reaches registry machine (LineBuffer.stripTerminator (out.bytes.take n)) command handler ↔
      name ≠ "END" ∧ name ≠ "CAN" ∧ name ≠ "D" := by
  obtain ⟨rfl, -⟩ := Command.new_eq_ok.mp hnew
  have hvalid := registerAll_keysValid (by simp [KeysValid, Registry.new]) hbuilt
    (command.name, handler) (get_eq_some hget)
  have hmember : command.name ∉ protocolNames ↔
      command.name ≠ "END" ∧ command.name ≠ "CAN" ∧ command.name ≠ "D" := by
    simp [protocolNames]
  rw [encodeCommand_frame hencode, ← hmember]
  exact reaches_commandBody hvalid hget hready

end Reach

section Instances

def echoCommand : Command := ⟨"ECHO", asBytes "hi", by decide, by decide⟩

theorem registered_reaches_echo :
    ∃ (registry : Registry Unit) (n : ℕ) (out : LineArray),
      Registry.new.registerAll [⟨"ECHO", "Returns its arguments", ()⟩] = .ok registry ∧
      encodeCommand echoCommand (Buffer.zero _) = (.ok n, out) ∧
      Reaches registry ⟨.ready, .greeting⟩ (LineBuffer.stripTerminator (out.bytes.take n))
        echoCommand ⟨"ECHO", "Returns its arguments", ()⟩ := by
  have hbuilt : Registry.new.registerAll [⟨"ECHO", "Returns its arguments", ()⟩] =
      .ok ⟨[("ECHO", ⟨"ECHO", "Returns its arguments", ()⟩)], by simp⟩ := by rfl
  have hnew : Command.new "ECHO" (asBytes "hi") = .ok echoCommand := by rfl
  rcases encodeCommand_writesLine echoCommand (Buffer.zero _) with ⟨out, hrun, -⟩ | ⟨-, hno⟩
  · refine ⟨_, _, out, hbuilt, hrun, ?_⟩
    exact (registered_reaches_iff hbuilt (by rfl) hnew hrun (by rfl)).mpr (by decide)
  · exact absurd ⟨trivial, by decide, by decide⟩ hno

def endCommand : Command := ⟨"END", [], by decide, by decide⟩

/-- A handler named `END` registers, and its command line is taken for the end of
an inquiry, which a ready machine refuses. -/
theorem end_handler_unreachable :
    ∃ (registry : Registry Unit) (handler : Handler Unit) (n : ℕ) (out : LineArray),
      Registry.new.registerAll [⟨"END", "Never runs", ()⟩] = .ok registry ∧
      registry.get "END" = some handler ∧ Command.new "END" [] = .ok endCommand ∧
      encodeCommand endCommand (Buffer.zero _) = (.ok n, out) ∧
      requestKind (LineBuffer.stripTerminator (out.bytes.take n)) = .ok .end_ ∧
      (ServerMachine.receiveRequest ⟨.ready, .greeting⟩ .end_).1 = .error .unexpectedEvent ∧
      ¬ Reaches registry ⟨.ready, .greeting⟩ (LineBuffer.stripTerminator (out.bytes.take n))
        endCommand handler := by
  have hbuilt : Registry.new.registerAll [⟨"END", "Never runs", ()⟩] =
      .ok ⟨[("END", ⟨"END", "Never runs", ()⟩)], by simp⟩ := by rfl
  rcases encodeCommand_writesLine endCommand (Buffer.zero _) with
    ⟨out, hrun, -, hclean, -, hw⟩ | ⟨-, hno⟩
  · have htake := hw.take
    rw [List.length_append, List.length_singleton] at htake
    have hkind : requestKind (LineBuffer.stripTerminator
        (out.bytes.take ((commandBody endCommand).length + 1))) = .ok .end_ := by
      rw [htake, stripTerminator_clean hclean]
      rfl
    refine ⟨_, _, _, out, hbuilt, by rfl, by rfl, hrun, hkind, rfl, fun h => ?_⟩
    have hboth := h.kind.symm.trans hkind
    exact absurd hboth (by simp)
  · exact absurd ⟨trivial, by decide, by decide⟩ hno

end Instances

end Assuan
