import Assuan.Fidelity.Help

/-!
# The `command!` and `assuan_command` macros (`assuan-macros/src/`)

Both check their literals when the program is compiled, with checks of their own
that repeat those of the protocol and of the registry. `syn` is seen through the
syntax trees it delivers: what the macros only pass on is kept as its tokens.
-/

namespace Assuan

/-! ## §1  Syntax trees -/

/-- `value` is the text that the literal denotes. -/
structure LitStr : Type where
  value : String
  suffix : String
deriving DecidableEq, Repr

mutual

inductive SynType : Type where
  | path (qself : Option SynType) (leadingColon : Bool) (segments : List PathSegment)
  | reference (lifetime : Option String) (mutability : Bool) (elem : SynType)
  | tuple (elems : List SynType)
  | other (tokens : String)

inductive PathSegment : Type where
  | mk (ident : String) (arguments : PathArguments)

inductive PathArguments : Type where
  | none
  | angleBracketed (args : List GenericArgument)
  | parenthesized (inputs : List SynType) (output : Option SynType)

/-- The other kinds are constants, bindings and constraints. -/
inductive GenericArgument : Type where
  | lifetime (ident : String)
  | type (type : SynType)
  | other (tokens : String)

end

def PathSegment.ident : PathSegment → String
  | .mk ident _ => ident

def PathSegment.arguments : PathSegment → PathArguments
  | .mk _ arguments => arguments

inductive FnArg : Type where
  | typed (pat : String) (ty : SynType)
  | receiver (tokens : String)

/-- No `output` is `ReturnType::Default`. -/
structure Signature : Type where
  constness : Bool
  asyncness : Bool
  unsafety : Bool
  abi : Option String
  ident : String
  params : List String
  whereClause : Option String
  inputs : List FnArg
  variadic : Option String
  output : Option SynType

/-- `ident` is what `path().get_ident()` returns. -/
structure FnAttribute : Type where
  ident : Option String
  tokens : String
deriving DecidableEq, Repr

def FnAttribute.isIdent (attr : FnAttribute) (name : String) : Bool :=
  attr.ident = some name

inductive Visibility : Type where
  | public_
  | restricted (path : String)
  | inherited
deriving DecidableEq, Repr

structure ItemFn : Type where
  attrs : List FnAttribute
  vis : Visibility
  sig : Signature
  block : String

inductive MacroError : Type where
  /-- Refused by `syn::parse2`. -/
  | parse
  /-- "literal suffixes are not supported" -/
  | suffix
  /-- The error of `Command::new` or `Command::parse`. -/
  | command (error : ProtocolError)
  /-- "unsupported Assuan package" -/
  | package
  /-- "add a dependency on {package} or assuan-library to use this macro" -/
  | dependency (package : String)
  /-- The error of `syn::parse_str` for the name of a crate. -/
  | crateName (name : String)
  /-- "expected command name and description" -/
  | metadata
  /-- "command name exceeds the wire limit" -/
  | nameLimit
  /-- "built-in command names are reserved" -/
  | reserved
  /-- "description must not contain NUL, CR or LF" -/
  | description
  /-- "expected a safe async function without generics, a where clause, or an extern
  ABI" -/
  | signature
  /-- "expected Command and &mut CommandContext arguments" -/
  | arguments
  /-- "receivers are not supported" -/
  | receiver
  /-- "expected {name}" -/
  | expected (name : String)
  /-- "unsupported type argument" -/
  | typeArgument
  /-- "unsupported type arguments" -/
  | typeArguments
  /-- "use an elided lifetime or '_ for call borrows" -/
  | lifetime
  /-- "Command accepts only its borrow lifetime" -/
  | commandArguments
  /-- "expected &mut CommandContext" -/
  | contextReference
  /-- "context must be borrowed mutably" -/
  | contextMutability
  /-- "expected at most one concrete state type" -/
  | stateType
  /-- "expected Result<(), HandlerError>" -/
  | result
  /-- "HandlerError has no generic arguments" -/
  | errorArguments
  /-- "unsupported function attribute; apply conditional attributes outside
  assuan_command" -/
  | attribute
deriving DecidableEq, Repr

/-! ## §2  Paths of the runtime crates -/

inductive FoundCrate : Type where
  | itself
  | name (name : String)
deriving DecidableEq, Repr

/-- What the macros ask of the build: `crate_name` by package, and whether a text is
an identifier for `syn::parse_str`. -/
structure Build : Type where
  crateName : String → Option FoundCrate
  isIdent : String → Bool

section Paths

variable (build : Build)

/-- A path is the list of its tokens. -/
def rootPath : FoundCrate → Outcome MacroError (List String)
  | .itself => .ok ["crate"]
  | .name name =>
      if build.isIdent name then .ok ["::", name]
      else if build.isIdent ("r#" ++ name) then .ok ["::", "r#" ++ name]
      else .err (.crateName name)

def selectPath (package : String) (facade direct : Option FoundCrate) :
    Outcome MacroError (List String) :=
  match facade with
  | some found => do
      let root ← match found with
        | .itself => .ok ["::", "assuan_library"]
        | .name name => rootPath build (.name name)
      let module ←
        if package = "assuan-protocol" then .ok "protocol"
        else if package = "assuan-server" then .ok "server"
        else if package = "assuan-sexpr" then .ok "sexpr"
        else .err .package
      .ok (root ++ ["::", module])
  | none =>
      match direct with
      | some found => rootPath build found
      | none => .err (.dependency package)

def resolvePath (package : String) : Outcome MacroError (List String) :=
  selectPath build package (build.crateName "assuan-library") (build.crateName package)

end Paths

/-! ## §3  `command!` -/

/-- `#protocol::Command::parse(#bytes).expect(..)`. -/
structure CommandExpr : Type where
  protocol : List String
  bytes : Bytes
deriving DecidableEq, Repr

/-- The expression at run time: the error of `parse` is a panic of `expect`. -/
def CommandExpr.eval (expr : CommandExpr) : Outcome ProtocolError Command :=
  match Command.parse expr.bytes with
  | .err _ => .panic
  | result => result

/-- `command::expand`, where `none` is a token stream that is not one string literal. -/
def expandCommand (build : Build) (input : Option LitStr) : Outcome MacroError CommandExpr := do
  let literal ← Outcome.okOr .parse input
  if literal.suffix ≠ "" then .err .suffix
  else do
    let _ ← (Command.parse (asBytes literal.value)).mapErr .command
    let protocol ← resolvePath build "assuan-protocol"
    .ok ⟨protocol, asBytes literal.value⟩

/-- A literal that is accepted cannot make the program panic. -/
theorem expandCommand_eq_ok {build : Build} {input : Option LitStr} {expr : CommandExpr} :
    expandCommand build input = .ok expr ↔ ∃ literal, input = some literal ∧
      literal.suffix = "" ∧ expr.bytes = asBytes literal.value ∧
      (∃ command, expr.eval = .ok command) ∧
      resolvePath build "assuan-protocol" = .ok expr.protocol := by
  unfold expandCommand
  constructor
  · intro h
    obtain ⟨literal, hinput, h⟩ := Outcome.bind_eq_ok.mp h
    split at h
    · exact absurd h (by simp)
    · next hsuffix =>
        obtain ⟨command, hparse, h⟩ := Outcome.bind_eq_ok.mp h
        obtain ⟨protocol, hprotocol, h⟩ := Outcome.bind_eq_ok.mp h
        obtain rfl := Outcome.ok.inj h
        refine ⟨literal, Outcome.okOr_eq_ok.mp hinput, not_not.mp hsuffix, rfl, ⟨command, ?_⟩,
          hprotocol⟩
        rw [CommandExpr.eval, Outcome.mapErr_eq_ok.mp hparse]
  · rintro ⟨literal, rfl, hsuffix, hbytes, ⟨command, heval⟩, hprotocol⟩
    have hparse : Command.parse (asBytes literal.value) = .ok command := by
      rw [CommandExpr.eval, hbytes] at heval
      split at heval
      · exact absurd heval (by simp)
      · exact heval
    rw [Outcome.okOr_some, Outcome.ok_bind, if_neg (not_not.mpr hsuffix), hparse, hprotocol,
      ← hbytes]
    rfl

/-! ## §4  `assuan_command` -/

/-- A token of the attribute's arguments. -/
inductive ArgToken : Type where
  | literal (literal : LitStr)
  | comma
  | other
deriving DecidableEq, Repr

/-- `Punctuated::<LitStr, Token![,]>::parse_terminated.parse2`. -/
def parseTerminated : List ArgToken → Outcome MacroError (List LitStr)
  | [] => .ok []
  | [.literal literal] => .ok [literal]
  | .literal literal :: .comma :: rest => do
      let literals ← parseTerminated rest
      .ok (literal :: literals)
  | _ => .err .parse

/-- The check of the suffixes comes before all others, for both literals. -/
def validateMetadata (name description : LitStr) : Outcome MacroError Unit :=
  if name.suffix ≠ "" then .err .suffix
  else if description.suffix ≠ "" then .err .suffix
  else do
    let _ ← (Command.new name.value []).mapErr .command
    if (asBytes name.value).length ≥ maxLineBytes then .err .nameLimit
    else if name.value ∈ ["NOP", "BYE", "HELP", "RESET", "OPTION"] then .err .reserved
    else if (asBytes description.value).any isForbidden then .err .description
    else .ok ()

def argumentType : FnArg → Outcome MacroError SynType
  | .typed _ ty => .ok ty
  | .receiver _ => .err .receiver

def namedType (value : SynType) (expected : String) : Outcome MacroError PathSegment :=
  match value with
  | .path none _ segments =>
      match segments.getLast? with
      | some last => if last.ident = expected then .ok last else .err (.expected expected)
      | none => .err (.expected expected)
  | _ => .err (.expected expected)

/-- The loop over the arguments, from what it has found so far: a lifetime is taken
only before everything else. -/
def collectArguments (lifetime : Option String) (types : List SynType) :
    List GenericArgument → Outcome MacroError (Option String × List SynType)
  | [] => .ok (lifetime, types)
  | .lifetime value :: args =>
      if lifetime = none ∧ types.isEmpty then collectArguments (some value) types args
      else .err .typeArgument
  | .type value :: args => collectArguments lifetime (types ++ [value]) args
  | .other _ :: _ => .err .typeArgument

def typeArguments (segment : PathSegment) :
    Outcome MacroError (Option String × List SynType) :=
  match segment.arguments with
  | .none => .ok (none, [])
  | .angleBracketed args => collectArguments none [] args
  | .parenthesized _ _ => .err .typeArguments

def validateBorrowLifetime : Option String → Outcome MacroError Unit
  | some lifetime => if lifetime ≠ "_" then .err .lifetime else .ok ()
  | none => .ok ()

def unitType : SynType := .tuple []

/-- The first argument. -/
def validateCommand (first : FnArg) : Outcome MacroError Unit := do
  let first ← argumentType first
  let command ← namedType first "Command"
  let (lifetime, types) ← typeArguments command
  validateBorrowLifetime lifetime
  if types.isEmpty then .ok () else .err .commandArguments

/-- The second argument, with the type arguments of the context. -/
def validateContext (second : FnArg) : Outcome MacroError (List SynType) := do
  let second ← argumentType second
  match second with
  | .reference lifetime mutability elem =>
      if mutability = false then .err .contextMutability
      else do
        validateBorrowLifetime lifetime
        let context ← namedType elem "CommandContext"
        let (lifetime, types) ← typeArguments context
        validateBorrowLifetime lifetime
        if types.length > 1 then .err .stateType else .ok types
  | _ => .err .contextReference

/-- The return type. -/
def validateOutput (output : Option SynType) : Outcome MacroError Unit :=
  match output with
  | none => .err .result
  | some output => do
      let result ← namedType output "Result"
      let (lifetime, types) ← typeArguments result
      match lifetime, types with
      | none, [.tuple [], error] => do
          let error ← namedType error "HandlerError"
          match error.arguments with
          | .none => .ok ()
          | _ => .err .errorArguments
      | _, _ => .err .result

/-- The state type of the handler. -/
def validateSignature (signature : Signature) : Outcome MacroError SynType :=
  if signature.asyncness = false ∨ signature.constness = true ∨ signature.unsafety = true ∨
      signature.abi.isSome ∨ signature.variadic.isSome ∨ ¬ signature.params.isEmpty ∨
      signature.whereClause.isSome then .err .signature
  else
    match signature.inputs with
    | [first, second] => do
        validateCommand first
        let types ← validateContext second
        validateOutput signature.output
        .ok (types.head?.getD unitType)
    | _ => .err .arguments

def supportedAttributes : List String :=
  ["doc", "cfg", "allow", "warn", "deny", "forbid", "deprecated", "inline", "cold", "must_use"]

def validateAttributes : List FnAttribute → Outcome MacroError Unit
  | [] => .ok ()
  | attr :: attrs =>
      if supportedAttributes.any attr.isIdent then validateAttributes attrs
      else .err .attribute

/-- The three items that `expand_attribute` writes: a unit structure `ident`, an
inherent `impl` with the function, and the `impl` of `Handler<state>`, whose `call`
awaits the function. -/
structure Expansion : Type where
  adapterAttrs : List FnAttribute
  visibility : Visibility
  ident : String
  gates : List FnAttribute
  function : ItemFn
  protocol : List String
  server : List String
  state : SynType
  name : LitStr
  description : LitStr

/-- The body after the checks. -/
def expansion (name description : LitStr) (function : ItemFn) (state : SynType)
    (protocol server : List String) : Expansion where
  adapterAttrs := function.attrs.filter fun attr =>
    !attr.isIdent "inline" && !attr.isIdent "cold" && !attr.isIdent "must_use"
  visibility := function.vis
  ident := function.sig.ident
  gates := function.attrs.filter fun attr => attr.isIdent "cfg"
  function :=
    { function with
      sig := { function.sig with ident := "__assuan_command_body" }
      vis := .inherited
      attrs := function.attrs.filter fun attr =>
        !attr.isIdent "doc" && !attr.isIdent "cfg" && !attr.isIdent "deprecated" }
  protocol := protocol
  server := server
  state := state
  name := name
  description := description

/-- The item is `none` if it is not a function. -/
def expandAttribute (build : Build) (args : List ArgToken) (item : Option ItemFn) :
    Outcome MacroError Expansion := do
  let metadata ← parseTerminated args
  match metadata with
  | [name, description] => do
      validateMetadata name description
      let function ← Outcome.okOr .parse item
      let state ← validateSignature function.sig
      validateAttributes function.attrs
      let protocol ← resolvePath build "assuan-protocol"
      let server ← resolvePath build "assuan-server"
      .ok (expansion name description function state protocol server)
  | _ => .err .metadata

/-- The adapter as a value: what its `name` and `description` return. -/
def Expansion.handler {κ : Type} (expansion : Expansion) (call : κ) : Handler κ where
  name := expansion.name.value
  description := expansion.description.value
  call := call

/-! ## §5  The grammar of the attribute -/

/-- The last segment of a path is `name`, with generic arguments or without. -/
inductive Named (name : String) : SynType → Option String → List SynType → Prop
  | bare (leadingColon : Bool) (front : List PathSegment) :
      Named name (.path none leadingColon (front ++ [.mk name .none])) none []
  | generic (leadingColon : Bool) (front : List PathSegment) (lifetime : Option String)
      (types : List SynType) :
      Named name (.path none leadingColon (front ++ [.mk name (.angleBracketed
        (lifetime.toList.map .lifetime ++ types.map .type))])) lifetime types

def Elided (lifetime : Option String) : Prop := lifetime = none ∨ lifetime = some "_"

inductive CommandType : SynType → Prop
  | intro {ty : SynType} {lifetime : Option String} : Named "Command" ty lifetime [] →
      Elided lifetime → CommandType ty

/-- A mutable borrow of a context, and the state type. -/
inductive ContextType : SynType → SynType → Prop
  | unit {elem : SynType} {borrow lifetime : Option String} :
      Named "CommandContext" elem lifetime [] → Elided borrow → Elided lifetime →
      ContextType (.reference borrow true elem) unitType
  | state {elem state : SynType} {borrow lifetime : Option String} :
      Named "CommandContext" elem lifetime [state] → Elided borrow → Elided lifetime →
      ContextType (.reference borrow true elem) state

inductive ResultType : SynType → Prop
  | intro {ty : SynType} (leadingColon : Bool) (front : List PathSegment) :
      Named "Result" ty none
        [unitType, .path none leadingColon (front ++ [.mk "HandlerError" .none])] →
      ResultType ty

/-- The functions that can become handlers of a state. -/
structure CommandSignature (signature : Signature) (state : SynType) : Prop where
  asyncness : signature.asyncness = true
  constness : signature.constness = false
  unsafety : signature.unsafety = false
  abi : signature.abi = none
  variadic : signature.variadic = none
  params : signature.params = []
  whereClause : signature.whereClause = none
  inputs : ∃ pat pat' command context,
    signature.inputs = [.typed pat command, .typed pat' context] ∧ CommandType command ∧
      ContextType context state
  output : ∃ result, signature.output = some result ∧ ResultType result

/-- Every literal with a comma after it. -/
def terminated (literals : List LitStr) : List ArgToken :=
  literals.flatMap fun literal => [.literal literal, .comma]

theorem terminated_cons (literal : LitStr) (literals : List LitStr) :
    terminated (literal :: literals) = .literal literal :: .comma :: terminated literals :=
  rfl

theorem parseTerminated_terminated (literals : List LitStr) :
    parseTerminated (terminated literals) = .ok literals := by
  induction literals with
  | nil => rfl
  | cons literal literals ih => rw [terminated_cons, parseTerminated, ih, Outcome.ok_bind]

/-- The last comma may be left out. -/
theorem parseTerminated_open {args : List ArgToken} {literals : List LitStr}
    (h : args ++ [.comma] = terminated literals) : parseTerminated args = .ok literals := by
  induction literals generalizing args with
  | nil => exact absurd h (by simp [terminated])
  | cons literal literals ih =>
      rw [terminated_cons] at h
      match args, h with
      | [], h => exact absurd (List.cons.inj h).1 (by simp)
      | [first], h =>
          obtain ⟨rfl, hrest⟩ := List.cons.inj h
          obtain ⟨-, hrest⟩ := List.cons.inj hrest
          cases literals with
          | nil => rfl
          | cons next literals => exact absurd hrest (by simp [terminated_cons])
      | first :: second :: args, h =>
          simp only [List.cons_append, List.cons.injEq] at h
          obtain ⟨rfl, rfl, hrest⟩ := h
          rw [parseTerminated, ih hrest, Outcome.ok_bind]

theorem parseTerminated_eq_ok {args : List ArgToken} {literals : List LitStr} :
    parseTerminated args = .ok literals ↔
      args = terminated literals ∨ args ++ [.comma] = terminated literals := by
  constructor
  · intro h
    induction args using parseTerminated.induct generalizing literals with
    | case1 =>
        obtain rfl := Outcome.ok.inj h
        exact Or.inl rfl
    | case2 literal =>
        obtain rfl := Outcome.ok.inj h
        exact Or.inr rfl
    | case3 literal rest ih =>
        rw [parseTerminated] at h
        obtain ⟨literals, hrest, h⟩ := Outcome.bind_eq_ok.mp h
        obtain rfl := Outcome.ok.inj h
        rw [terminated_cons]
        rcases ih hrest with h | h
        · exact Or.inl (by rw [h])
        · exact Or.inr (by rw [← h]; rfl)
    | case4 args hnil hone hmore =>
        rw [parseTerminated.eq_4 args hnil hone hmore] at h
        exact absurd h (by simp)
  · rintro (rfl | h)
    · exact parseTerminated_terminated literals
    · exact parseTerminated_open h

/-- The macro and the registry check a name and a description alike. -/
theorem validateMetadata_eq_ok {name description : LitStr} :
    validateMetadata name description = .ok () ↔ name.suffix = "" ∧ description.suffix = "" ∧
      validateName name.value = .ok () ∧ validateDescription description.value = .ok () := by
  unfold validateMetadata
  by_cases hname : name.suffix = ""
  · by_cases hdescription : description.suffix = ""
    · rw [if_neg (not_not.mpr hname), if_neg (not_not.mpr hdescription)]
      simp only [hname, hdescription, true_and]
      unfold validateName validateDescription
      cases hnew : Command.new name.value [] with
      | ok command =>
          simp only [Outcome.mapErr_ok, Outcome.ok_bind]
          by_cases hlength : (asBytes name.value).length ≥ maxLineBytes
          · rw [if_pos hlength, if_pos hlength]
            simp
          · rw [if_neg hlength, if_neg hlength]
            -- both lists of reserved names are the same
            by_cases hreserved : name.value ∈ reservedNames
            · have hlisted : name.value ∈ ["NOP", "BYE", "HELP", "RESET", "OPTION"] := hreserved
              rw [if_pos hreserved, if_pos hlisted]
              simp
            · have hlisted : name.value ∉ ["NOP", "BYE", "HELP", "RESET", "OPTION"] := hreserved
              rw [if_neg hreserved, if_neg hlisted]
              split <;> simp
      | _ => simp [Outcome.mapErr]
    · rw [if_neg (not_not.mpr hname), if_pos hdescription]
      simp [hdescription]
  · rw [if_pos hname]
    simp [hname]

theorem namedType_eq_ok {value : SynType} {expected : String} {segment : PathSegment} :
    namedType value expected = .ok segment ↔ ∃ leadingColon front arguments,
      segment = .mk expected arguments ∧ value = .path none leadingColon (front ++ [segment]) := by
  constructor
  · intro h
    unfold namedType at h
    split at h
    · next leadingColon segments =>
        split at h
        · next last hlast =>
            split at h
            · next hname =>
                obtain rfl := Outcome.ok.inj h
                obtain ⟨front, rfl⟩ := List.getLast?_eq_some_iff.mp hlast
                obtain ⟨ident, arguments⟩ := last
                exact ⟨leadingColon, front, arguments, by rw [← hname]; rfl, rfl⟩
            · exact absurd h (by simp)
        · exact absurd h (by simp)
    · exact absurd h (by simp)
  · rintro ⟨leadingColon, front, arguments, rfl, rfl⟩
    simp [namedType, PathSegment.ident]

theorem collectArguments_types (lifetime : Option String) (types more : List SynType) :
    collectArguments lifetime types (more.map .type) = .ok (lifetime, types ++ more) := by
  induction more generalizing types with
  | nil => rw [List.map_nil, collectArguments, List.append_nil]
  | cons value more ih =>
      rw [List.map_cons, collectArguments, ih, List.append_assoc, List.singleton_append]

/-- After the first argument there are only types. -/
theorem collectArguments_rest {lifetime lifetime' : Option String} {types types' : List SynType}
    {args : List GenericArgument} (hfound : ¬ (lifetime = none ∧ types = []))
    (h : collectArguments lifetime types args = .ok (lifetime', types')) :
    lifetime' = lifetime ∧ ∃ more : List SynType,
      args = more.map .type ∧ types' = types ++ more := by
  induction args generalizing types with
  | nil =>
      obtain ⟨rfl, rfl⟩ := Prod.mk.inj (Outcome.ok.inj h)
      exact ⟨rfl, [], rfl, (List.append_nil _).symm⟩
  | cons arg args ih =>
      cases arg with
      | lifetime value =>
          rw [collectArguments, if_neg (by rwa [List.isEmpty_iff])] at h
          exact absurd h (by simp)
      | type value =>
          rw [collectArguments] at h
          obtain ⟨hlifetime, more, rfl, rfl⟩ := ih (by simp) h
          exact ⟨hlifetime, value :: more, rfl, by simp⟩
      | other tokens => exact absurd h (by simp [collectArguments])

theorem collectArguments_eq_ok {lifetime : Option String} {types : List SynType}
    {args : List GenericArgument} :
    collectArguments none [] args = .ok (lifetime, types) ↔
      args = lifetime.toList.map .lifetime ++ types.map .type := by
  constructor
  · intro h
    cases args with
    | nil =>
        obtain ⟨rfl, rfl⟩ := Prod.mk.inj (Outcome.ok.inj h)
        rfl
    | cons arg args =>
        cases arg with
        | lifetime value =>
            rw [collectArguments, if_pos (by simp)] at h
            obtain ⟨rfl, more, rfl, rfl⟩ := collectArguments_rest (by simp) h
            rfl
        | type value =>
            rw [collectArguments] at h
            obtain ⟨rfl, more, rfl, rfl⟩ := collectArguments_rest (by simp) h
            rfl
        | other tokens => exact absurd h (by simp [collectArguments])
  · rintro rfl
    cases lifetime with
    | none => exact collectArguments_types none [] types
    | some value =>
        show collectArguments none [] (.lifetime value :: types.map .type) = _
        rw [collectArguments, if_pos (by simp)]
        exact collectArguments_types (some value) [] types

/-- Both functions together read a type with a name and its arguments. -/
theorem named_iff {ty : SynType} {name : String} {lifetime : Option String}
    {types : List SynType} :
    (∃ segment, namedType ty name = .ok segment ∧
      typeArguments segment = .ok (lifetime, types)) ↔ Named name ty lifetime types := by
  constructor
  · rintro ⟨segment, hnamed, harguments⟩
    obtain ⟨leadingColon, front, arguments, rfl, rfl⟩ := namedType_eq_ok.mp hnamed
    cases arguments with
    | none =>
        obtain ⟨rfl, rfl⟩ := Prod.mk.inj (Outcome.ok.inj harguments)
        exact .bare leadingColon front
    | angleBracketed args =>
        obtain rfl := collectArguments_eq_ok.mp harguments
        exact .generic leadingColon front lifetime types
    | parenthesized inputs output =>
        exact absurd harguments (by simp [typeArguments, PathSegment.arguments])
  · intro h
    cases h with
    | bare leadingColon front =>
        exact ⟨_, namedType_eq_ok.mpr ⟨leadingColon, front, _, rfl, rfl⟩, rfl⟩
    | generic leadingColon front =>
        exact ⟨_, namedType_eq_ok.mpr ⟨leadingColon, front, _, rfl, rfl⟩,
          collectArguments_eq_ok.mpr rfl⟩

theorem validateBorrowLifetime_eq_ok {lifetime : Option String} :
    validateBorrowLifetime lifetime = .ok () ↔ Elided lifetime := by
  cases lifetime with
  | none => simp [validateBorrowLifetime, Elided]
  | some value =>
      by_cases hvalue : value = "_" <;> simp [validateBorrowLifetime, Elided, hvalue]

theorem validateCommand_eq_ok {first : FnArg} :
    validateCommand first = .ok () ↔ ∃ pat ty, first = .typed pat ty ∧ CommandType ty := by
  cases first with
  | receiver tokens => simp [validateCommand, argumentType]
  | typed pat ty =>
      simp only [validateCommand, argumentType, Outcome.ok_bind, Outcome.bind_eq_ok]
      constructor
      · rintro ⟨segment, hnamed, ⟨lifetime, types⟩, harguments, _, hlifetime, htypes⟩
        cases types with
        | nil =>
            exact ⟨pat, ty, rfl, .intro (named_iff.mp ⟨segment, hnamed, harguments⟩)
              (validateBorrowLifetime_eq_ok.mp hlifetime)⟩
        | cons value types => exact absurd htypes (by simp)
      · rintro ⟨_, _, heq, hty⟩
        obtain ⟨rfl, rfl⟩ := FnArg.typed.inj heq
        cases hty with
        | intro hnames hlifetime =>
            obtain ⟨segment, hnamed, harguments⟩ := named_iff.mpr hnames
            exact ⟨segment, hnamed, _, harguments, (),
              validateBorrowLifetime_eq_ok.mpr hlifetime, rfl⟩

theorem validateContext_eq_ok {second : FnArg} {state : SynType} :
    (∃ types, validateContext second = .ok types ∧ types.head?.getD unitType = state) ↔
      ∃ pat ty, second = .typed pat ty ∧ ContextType ty state := by
  constructor
  · rintro ⟨types, h, rfl⟩
    cases second with
    | receiver tokens => exact absurd h (by simp [validateContext, argumentType])
    | typed pat ty =>
        refine ⟨pat, ty, rfl, ?_⟩
        simp only [validateContext, argumentType, Outcome.ok_bind] at h
        split at h
        · next borrow mutability elem =>
            split at h
            · exact absurd h (by simp)
            · next hmutable =>
                obtain rfl := (Bool.not_eq_false mutability).mp hmutable
                simp only [Outcome.bind_eq_ok] at h
                obtain ⟨_, hborrow, segment, hnamed, ⟨lifetime, types'⟩, harguments, _, hlifetime,
                  h⟩ := h
                have hnames := named_iff.mp ⟨segment, hnamed, harguments⟩
                have hborrow := validateBorrowLifetime_eq_ok.mp hborrow
                have hlifetime := validateBorrowLifetime_eq_ok.mp hlifetime
                split at h
                · exact absurd h (by simp)
                · next hlength =>
                    obtain rfl := Outcome.ok.inj h
                    match types', hlength, hnames with
                    | [], _, hnames => exact .unit hnames hborrow hlifetime
                    | [state], _, hnames => exact .state hnames hborrow hlifetime
                    | _ :: _ :: _, hlength, _ => exact absurd hlength (by simp)
        · exact absurd h (by simp)
  · have hcheck : ∀ {elem types borrow lifetime}, Named "CommandContext" elem lifetime types →
        Elided borrow → Elided lifetime → types.length ≤ 1 → ∀ pat,
        validateContext (.typed pat (.reference borrow true elem)) = .ok types := by
      intro elem types borrow lifetime hnames hborrow hlifetime hlength pat
      obtain ⟨segment, hnamed, harguments⟩ := named_iff.mpr hnames
      simp only [validateContext, argumentType, Outcome.ok_bind, hnamed, harguments,
        validateBorrowLifetime_eq_ok.mpr hborrow, validateBorrowLifetime_eq_ok.mpr hlifetime]
      rw [if_neg (by simp), if_neg (by omega)]
    rintro ⟨pat, ty, rfl, hty⟩
    cases hty with
    | unit hnames hborrow hlifetime =>
        exact ⟨[], hcheck hnames hborrow hlifetime (by simp) pat, rfl⟩
    | state hnames hborrow hlifetime =>
        exact ⟨[state], hcheck hnames hborrow hlifetime (by simp) pat, rfl⟩

theorem validateOutput_eq_ok {output : Option SynType} :
    validateOutput output = .ok () ↔ ∃ result, output = some result ∧ ResultType result := by
  cases output with
  | none => simp [validateOutput]
  | some ty =>
      simp only [validateOutput, Outcome.bind_eq_ok]
      constructor
      · rintro ⟨segment, hnamed, ⟨lifetime, types⟩, harguments, h⟩
        have hnames := named_iff.mp ⟨segment, hnamed, harguments⟩
        split at h
        · next _ _ error hlifetime htypes =>
            obtain rfl : lifetime = none := hlifetime
            obtain rfl : types = [.tuple [], error] := htypes
            obtain ⟨last, hlast, hbare⟩ := Outcome.bind_eq_ok.mp h
            obtain ⟨leadingColon, front, arguments, rfl, rfl⟩ := namedType_eq_ok.mp hlast
            cases arguments with
            | none => exact ⟨ty, rfl, .intro leadingColon front hnames⟩
            | _ => exact absurd hbare (by simp [PathSegment.arguments])
        · exact absurd h (by simp)
      · rintro ⟨_, heq, hty⟩
        obtain rfl := Option.some.inj heq
        cases hty with
        | intro leadingColon front hnames =>
            obtain ⟨segment, hnamed, harguments⟩ := named_iff.mpr hnames
            refine ⟨segment, hnamed, _, harguments, ?_⟩
            have hlast := namedType_eq_ok.mpr
              ⟨leadingColon, front, .none, rfl, (rfl : SynType.path none leadingColon
                (front ++ [.mk "HandlerError" .none]) = _)⟩
            simp only [unitType, hlast, Outcome.ok_bind, PathSegment.arguments]

theorem validateSignature_eq_ok {signature : Signature} {state : SynType} :
    validateSignature signature = .ok state ↔ CommandSignature signature state := by
  unfold validateSignature
  constructor
  · intro h
    split at h
    · exact absurd h (by simp)
    · next hplain =>
        simp only [not_or, Bool.not_eq_false, Bool.not_eq_true, Option.isSome_eq_false_iff,
          Option.isNone_iff_eq_none, not_not, List.isEmpty_iff] at hplain
        obtain ⟨hasync, hconst, hunsafe, habi, hvariadic, hparams, hwhere⟩ := hplain
        split at h
        · next first second hinputs =>
            simp only [Outcome.bind_eq_ok] at h
            obtain ⟨_, hfirst, types, hsecond, _, houtput, h⟩ := h
            obtain ⟨pat, command, rfl, hcommand⟩ := validateCommand_eq_ok.mp hfirst
            obtain ⟨pat', context, rfl, hcontext⟩ :=
              validateContext_eq_ok.mp ⟨types, hsecond, Outcome.ok.inj h⟩
            exact ⟨hasync, hconst, hunsafe, habi, hvariadic, hparams, hwhere,
              ⟨pat, pat', command, context, hinputs, hcommand, hcontext⟩,
              validateOutput_eq_ok.mp houtput⟩
        · exact absurd h (by simp)
  · rintro ⟨hasync, hconst, hunsafe, habi, hvariadic, hparams, hwhere,
      ⟨pat, pat', command, context, hinputs, hcommand, hcontext⟩, houtput⟩
    obtain ⟨types, hsecond, hstate⟩ := validateContext_eq_ok.mpr ⟨pat', context, rfl, hcontext⟩
    rw [if_neg (by simp [hasync, hconst, hunsafe, habi, hvariadic, hparams, hwhere]), hinputs]
    simp only [validateCommand_eq_ok.mpr ⟨pat, command, rfl, hcommand⟩, hsecond,
      validateOutput_eq_ok.mpr houtput, Outcome.ok_bind, hstate]

theorem validateAttributes_eq_ok {attrs : List FnAttribute} :
    validateAttributes attrs = .ok () ↔
      ∀ attr ∈ attrs, ∃ name ∈ supportedAttributes, attr.ident = some name := by
  induction attrs with
  | nil => simp [validateAttributes]
  | cons attr attrs ih =>
      have hany : supportedAttributes.any attr.isIdent = true ↔
          ∃ name ∈ supportedAttributes, attr.ident = some name := by
        simp [List.any_eq_true, FnAttribute.isIdent]
      rw [validateAttributes, List.forall_mem_cons, ← hany]
      by_cases h : supportedAttributes.any attr.isIdent = true
      · rw [if_pos h, ih, and_iff_right h]
      · rw [if_neg h]
        simp [h]

/-- What a use of the attribute must be: the arguments, the function and the build. -/
structure Expandable (build : Build) (args : List ArgToken) (item : Option ItemFn)
    (e : Expansion) : Prop where
  args : args = terminated [e.name, e.description] ∨
    args ++ [.comma] = terminated [e.name, e.description]
  name_suffix : e.name.suffix = ""
  description_suffix : e.description.suffix = ""
  name : validateName e.name.value = .ok ()
  description : validateDescription e.description.value = .ok ()
  protocol : resolvePath build "assuan-protocol" = .ok e.protocol
  server : resolvePath build "assuan-server" = .ok e.server
  function : ∃ function, item = some function ∧ CommandSignature function.sig e.state ∧
    (∀ attr ∈ function.attrs, ∃ name ∈ supportedAttributes, attr.ident = some name) ∧
    e = expansion e.name e.description function e.state e.protocol e.server

theorem expandAttribute_eq_ok {build : Build} {args : List ArgToken} {item : Option ItemFn}
    {e : Expansion} :
    expandAttribute build args item = .ok e ↔ Expandable build args item e := by
  unfold expandAttribute
  constructor
  · intro h
    obtain ⟨metadata, hargs, h⟩ := Outcome.bind_eq_ok.mp h
    have hargs := parseTerminated_eq_ok.mp hargs
    split at h
    · next name description =>
        simp only [Outcome.bind_eq_ok, Outcome.okOr_eq_ok] at h
        obtain ⟨_, hmetadata, function, hitem, state, hstate, _, hattrs, protocol, hprotocol,
          server, hserver, h⟩ := h
        obtain rfl := Outcome.ok.inj h
        obtain ⟨hname, hdescription, hvalid, hclean⟩ := validateMetadata_eq_ok.mp hmetadata
        exact ⟨hargs, hname, hdescription, hvalid, hclean, hprotocol, hserver, function, hitem,
          validateSignature_eq_ok.mp hstate, validateAttributes_eq_ok.mp hattrs, rfl⟩
    · exact absurd h (by simp)
  · rintro ⟨hargs, hname, hdescription, hvalid, hclean, hprotocol, hserver, function, rfl, hstate,
      hattrs, he⟩
    rw [parseTerminated_eq_ok.mpr hargs, Outcome.ok_bind]
    simp only [validateMetadata_eq_ok.mpr ⟨hname, hdescription, hvalid, hclean⟩,
      validateSignature_eq_ok.mpr hstate, validateAttributes_eq_ok.mpr hattrs, hprotocol, hserver,
      Outcome.ok_bind, Outcome.okOr_some]
    rw [← he]

/-- Where the attributes of the function go. -/
theorem expansion_attrs (name description : LitStr) (function : ItemFn) (state : SynType)
    (protocol server : List String) {attr : FnAttribute} (hattr : attr ∈ function.attrs) :
    (attr ∈ (expansion name description function state protocol server).adapterAttrs ∨
      attr ∈ (expansion name description function state protocol server).function.attrs) ∧
    (attr.ident = some "cfg" →
      attr ∈ (expansion name description function state protocol server).adapterAttrs ∧
      attr ∈ (expansion name description function state protocol server).gates ∧
      attr ∉ (expansion name description function state protocol server).function.attrs) := by
  constructor
  · by_cases hcfg : attr.ident = some "inline" ∨ attr.ident = some "cold" ∨
        attr.ident = some "must_use"
    · refine Or.inr (List.mem_filter.mpr ⟨hattr, ?_⟩)
      rcases hcfg with h | h | h <;> simp [FnAttribute.isIdent, h]
    · refine Or.inl (List.mem_filter.mpr ⟨hattr, ?_⟩)
      simp only [not_or] at hcfg
      simp [FnAttribute.isIdent, hcfg]
  · intro hcfg
    refine ⟨List.mem_filter.mpr ⟨hattr, ?_⟩, List.mem_filter.mpr ⟨hattr, ?_⟩, ?_⟩
    · simp [FnAttribute.isIdent, hcfg]
    · simp [FnAttribute.isIdent, hcfg]
    · intro hmem
      have hkept := (List.mem_filter.mp hmem).2
      simp [FnAttribute.isIdent, hcfg] at hkept

/-! ## §6  From functions to a registry -/

section Adapters

variable {κ : Type}

/-- A handler that the attribute has made of some function. -/
def Generated (build : Build) (handler : Handler κ) : Prop :=
  ∃ args item e, expandAttribute build args item = .ok e ∧
    handler = Expansion.handler e handler.call

theorem validateDescription_eq_ok {value : String} :
    validateDescription value = .ok () ↔ isCleanLine (asBytes value) = true := by
  unfold validateDescription isCleanLine
  by_cases h : (asBytes value).any isForbidden = true <;> simp [h]

/-- What `register` asks of a handler, apart from the names that are there. -/
structure Registrable (handler : Handler κ) : Prop where
  name : validateName handler.name = .ok ()
  description : validateDescription handler.description = .ok ()

theorem Generated.valid {build : Build} {handler : Handler κ} (h : Generated build handler) :
    Registrable handler := by
  obtain ⟨args, item, e, hexpand, hhandler⟩ := h
  have haccepted := expandAttribute_eq_ok.mp hexpand
  constructor
  · rw [hhandler]
    exact haccepted.name
  · rw [hhandler]
    exact haccepted.description

def Registry.names (registry : Registry κ) : List String := registry.handlers.map Prod.fst

/-- The two results of a registration. -/
theorem register_valid {handler : Handler κ} (h : Registrable handler) (registry : Registry κ) :
    (handler.name ∈ registry.names ∧
      registry.register handler = .err (.duplicate handler.name)) ∨
    ∃ registry', registry.register handler = .ok registry' ∧
      registry'.handlers = registry.handlers ++ [(handler.name, handler)] := by
  unfold Registry.register
  rw [h.name, h.description]
  simp only [Outcome.ok_bind]
  by_cases hmem : handler.name ∈ registry.handlers.map Prod.fst
  · rw [dif_pos hmem]
    exact Or.inl ⟨hmem, rfl⟩
  · rw [dif_neg hmem]
    exact Or.inr ⟨_, rfl, rfl⟩

/-- A sequence of registrations fails at the first name that is there already. -/
theorem registerAll_valid {handlers : List (Handler κ)}
    (hvalid : ∀ handler ∈ handlers, Registrable handler) (registry : Registry κ) :
    (∃ registry', registry.registerAll handlers = .ok registry' ∧
      registry'.handlers =
        registry.handlers ++ handlers.map fun handler => (handler.name, handler)) ∨
    ∃ name, registry.registerAll handlers = .err (.duplicate name) ∧
      2 ≤ (registry.names ++ handlers.map Handler.name).count name := by
  induction handlers generalizing registry with
  | nil => exact Or.inl ⟨registry, rfl, by simp⟩
  | cons handler handlers ih =>
      obtain ⟨hfirst, hrest⟩ := List.forall_mem_cons.mp hvalid
      rcases register_valid hfirst registry with ⟨hmem, hrun⟩ | ⟨registry', hrun, hhandlers⟩
      · refine Or.inr ⟨handler.name, ?_, ?_⟩
        · rw [Registry.registerAll, hrun, Outcome.err_bind]
        · have hthere := List.one_le_count_iff.mpr hmem
          rw [List.count_append, List.map_cons, List.count_cons_self]
          omega
      · have hnames : registry'.names ++ handlers.map Handler.name =
            registry.names ++ (handler :: handlers).map Handler.name := by
          simp [Registry.names, hhandlers]
        rw [Registry.registerAll, hrun, Outcome.ok_bind, ← hnames]
        rcases ih hrest registry' with ⟨registry'', hrun', hhandlers'⟩ | hfails
        · exact Or.inl ⟨registry'', hrun', by rw [hhandlers', hhandlers]; simp⟩
        · exact Or.inr hfails

theorem get_of_mem {registry : Registry κ} {name : String} {handler : Handler κ}
    (h : (name, handler) ∈ registry.handlers) : registry.get name = some handler := by
  have hsome : (registry.handlers.find? fun entry => entry.1 = name).isSome = true :=
    List.find?_isSome.mpr ⟨(name, handler), h, by simp⟩
  obtain ⟨entry, hfind⟩ := Option.isSome_iff_exists.mp hsome
  have hname : entry.1 = name := by simpa using List.find?_some hfind
  obtain rfl : entry = (name, handler) :=
    List.inj_on_of_nodup_map registry.nodup (List.mem_of_find?_eq_some hfind) h hname
  rw [Registry.get, hfind, Option.map_some]

end Adapters

/-- **The attribute accepts its grammar and nothing else.** An expansion is the result
for exactly the arguments, functions and builds that are described: two literals that
the registry accepts as a name and a description, a function with the signature of a
handler of that state and with attributes from the list, and crates that are found.
Every attribute of the function goes to the adapter or to the helper, and each `cfg`
stands before all three items and not before the function inside. -/
theorem expandAttribute_exact (build : Build) (args : List ArgToken) (item : Option ItemFn)
    (e : Expansion) :
    (expandAttribute build args item = .ok e ↔ Expandable build args item e) ∧
    ∀ function, item = some function → Expandable build args item e →
      ∀ attr ∈ function.attrs, (attr ∈ e.adapterAttrs ∨ attr ∈ e.function.attrs) ∧
        (attr.ident = some "cfg" →
          attr ∈ e.adapterAttrs ∧ attr ∈ e.gates ∧ attr ∉ e.function.attrs) := by
  refine ⟨expandAttribute_eq_ok, ?_⟩
  rintro function rfl haccepted attr hattr
  obtain ⟨_, hfunction, -, -, he⟩ := haccepted.function
  obtain rfl := Option.some.inj hfunction
  rw [he]
  exact expansion_attrs _ _ _ _ _ _ hattr

/-- A path without a leading colon, of one segment. -/
def simpleType (name : String) (arguments : PathArguments) : SynType :=
  .path none false [.mk name arguments]

/-- `pub async fn get_info(command: Command<'_>, context: &mut CommandContext<'_, State>)
-> Result<(), HandlerError>` with a comment and a condition. -/
def getInfo : ItemFn where
  attrs := [⟨some "doc", "= \" Retrieves public information.\""⟩, ⟨some "cfg", "(unix)"⟩]
  vis := .public_
  sig :=
    { constness := false, asyncness := true, unsafety := false, abi := none, ident := "get_info"
      params := [], whereClause := none, variadic := none
      inputs :=
        [.typed "command" (simpleType "Command" (.angleBracketed [.lifetime "_"])),
          .typed "context" (.reference none true (simpleType "CommandContext"
            (.angleBracketed [.lifetime "_", .type (simpleType "State" .none)])))]
      output := some (simpleType "Result"
        (.angleBracketed [.type unitType, .type (simpleType "HandlerError" .none)])) }
  block := "{ return context.send_data(command.args()).await; }"

/-- The facade is there under another name. -/
def aliased : Build where
  crateName package := if package = "assuan-library" then some (.name "library") else none
  isIdent _ := true

def getInfoExpansion : Expansion :=
  expansion ⟨"GETINFO", ""⟩ ⟨"Returns server information", ""⟩ getInfo (simpleType "State" .none)
    ["::", "library", "::", "protocol"] ["::", "library", "::", "server"]

def getInfoArgs : List ArgToken :=
  [.literal ⟨"GETINFO", ""⟩, .comma, .literal ⟨"Returns server information", ""⟩, .comma]

theorem expandAttribute_getInfo :
    expandAttribute aliased getInfoArgs (some getInfo) = .ok getInfoExpansion := by
  rfl

theorem expandAttribute_exact_getInfo :
    Expandable aliased getInfoArgs (some getInfo) getInfoExpansion ∧
      (⟨some "cfg", "(unix)"⟩ : FnAttribute) ∈ getInfoExpansion.gates := by
  obtain ⟨hexact, hattrs⟩ :=
    expandAttribute_exact aliased getInfoArgs (some getInfo) getInfoExpansion
  have haccepted := hexact.mp expandAttribute_getInfo
  exact ⟨haccepted, ((hattrs getInfo rfl haccepted _ (List.mem_of_getLast? rfl)).2 rfl).2.1⟩

/-- **Generated handlers can be registered.** Handlers that the attribute has made form
a registry if and only if their names differ, and the only error is that a name is
there already. Then the `match` on the command name selects each handler for its own
name, and the command lines of the name reach it unless the classifier takes them for
its own keywords, as it does with `END`, `CAN` and `D`. HELP writes the whole entry of
each handler, in lines that are valid comments. -/
theorem generated_register {κ : Type} (build : Build) (handlers : List (Handler κ))
    (hgenerated : ∀ handler ∈ handlers, Generated build handler) :
    ((∃ registry, Registry.new.registerAll handlers = .ok registry) ↔
      (handlers.map Handler.name).Nodup) ∧
    (∀ e, Registry.new.registerAll handlers = .err e →
      ∃ name, e = .duplicate name ∧ 2 ≤ (handlers.map Handler.name).count name) ∧
    ∀ registry, Registry.new.registerAll handlers = .ok registry → ∀ handler ∈ handlers,
      route registry handler.name = .handler handler ∧
      (∀ args command output out n machine, Command.new handler.name args = .ok command →
        encodeCommand command output = (.ok n, out) → machine.state = .ready →
        (Reaches registry machine (LineBuffer.stripTerminator (out.bytes.take n)) command handler ↔
          handler.name ≠ "END" ∧ handler.name ≠ "CAN" ∧ handler.name ≠ "D")) ∧
      String.join (Link.entryTexts handler.name handler.description) =
        handler.name ++ " " ++ handler.description ∧
      (∀ text ∈ Link.entryTexts handler.name handler.description,
        encoded (encodeResponse (helpComment text)) = .ok (helpLine text) ∧
        parseServerLine (LineBuffer.stripTerminator (helpLine text)) = .ok (helpComment text)) ∧
      ∀ link input, Handling link input → ∃ link',
        Link.entry handler.name handler.description link = (.ok (), link') ∧
        Handling link' input ∧ link'.channel.trace = link.channel.trace ++
          ((Link.entryTexts handler.name handler.description).map helpLine).map .wrote := by
  have hvalid := fun handler hmem => (hgenerated handler hmem).valid
  have hresult := registerAll_valid hvalid Registry.new
  refine ⟨?_, ?_, ?_⟩
  · rcases hresult with ⟨registry, hrun, hhandlers⟩ | ⟨name, hrun, hcount⟩
    · refine ⟨fun _ => ?_, fun _ => ⟨registry, hrun⟩⟩
      have hnodup := registry.nodup
      rw [hhandlers] at hnodup
      simpa [Registry.new, Function.comp_def] using hnodup
    · constructor
      · rintro ⟨registry, h⟩
        exact absurd (hrun.symm.trans h) (by simp)
      · intro hnodup
        have hle := List.nodup_iff_count_le_one.mp hnodup name
        simp only [Registry.names, Registry.new, List.map_nil, List.nil_append] at hcount
        omega
  · intro e he
    rcases hresult with ⟨registry, hrun, -⟩ | ⟨name, hrun, hcount⟩
    · exact absurd (hrun.symm.trans he) (by simp)
    · exact ⟨name, Outcome.err.inj (he.symm.trans hrun), hcount⟩
  · intro registry hrun handler hmem
    have hname := (hvalid handler hmem).name
    obtain ⟨htoken, -, hreserved⟩ := validateName_eq_ok hname
    have hclean := validateDescription_eq_ok.mp (hvalid handler hmem).description
    have hlistable := entryTexts_listable htoken hclean
    have hthere : (handler.name, handler) ∈ registry.handlers := by
      rcases hresult with ⟨registry', hrun', hhandlers⟩ | ⟨name, hrun', -⟩
      · obtain rfl := Outcome.ok.inj (hrun.symm.trans hrun')
        rw [hhandlers]
        exact List.mem_append_right _ (List.mem_map_of_mem hmem)
      · exact absurd (hrun.symm.trans hrun') (by simp)
    refine ⟨route_handler hreserved (get_of_mem hthere), ?_, Link.entryTexts_join, ?_, ?_⟩
    · intro args command output out n machine hnew hencode hready
      have hsame : command.name = handler.name := (Command.new_eq_ok.mp hnew).1
      have hreaches : Reaches registry machine (commandBody command) command handler ↔
          command.name ∉ protocolNames :=
        reaches_commandBody (hsame ▸ hname) (hsame ▸ get_of_mem hthere) hready
      rw [encodeCommand_frame hencode, hreaches, hsame]
      simp [protocolNames]
    · intro text htext
      exact ⟨(hlistable text htext).encode, (hlistable text htext).parse⟩
    · intro link input h
      exact h.entry htoken hclean

theorem generated_register_getInfo : ∃ registry : Registry Unit,
    Registry.new.registerAll [getInfoExpansion.handler ()] = .ok registry ∧
      route registry "GETINFO" = .handler (getInfoExpansion.handler ()) := by
  obtain ⟨hbuilt, -, hroute⟩ := generated_register aliased [getInfoExpansion.handler ()] (by
    intro handler hmem
    rw [List.mem_singleton.mp hmem]
    exact ⟨getInfoArgs, some getInfo, getInfoExpansion, expandAttribute_getInfo, rfl⟩)
  obtain ⟨registry, hrun⟩ := hbuilt.mpr (List.nodup_singleton _)
  exact ⟨registry, hrun, (hroute registry hrun _ List.mem_cons_self).1⟩

end Assuan
