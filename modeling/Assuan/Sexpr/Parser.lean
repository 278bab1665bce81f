import Assuan.Sexpr.Value

/-!
# The bounded parser (`assuan-sexpr/src/parser.rs`, `limits.rs`)

One loop over the input with an explicit stack of open lists. `position` and
the node counter are `usize` values; the additions the source does not check
panic here when they overflow, and so does every index out of range.
-/

namespace Assuan

inductive ParseErrorKind : Type where
  | invalidLimits
  | inputLimit
  | atomLimit
  | nodeLimit
  | depthLimit
  | lengthOverflow
  | invalidLength
  | expectedColon
  | unexpectedToken
  | unexpectedEof
  | trailingData
  | allocationFailed
deriving DecidableEq, Repr

structure ParseError : Type where
  kind : ParseErrorKind
  offset : Option ℕ
deriving DecidableEq, Repr

namespace ParseError

/-- `ParseError::at`. -/
def at_ (kind : ParseErrorKind) (offset : ℕ) : ParseError := ⟨kind, some offset⟩

def invalidLimits : ParseError := ⟨.invalidLimits, none⟩

end ParseError

/-! ## §1  Limits -/

def maxNestingDepth : ℕ := 256

/-- Validated limits: `ParseLimits::new` is the only way to build one. -/
structure ParseLimits : Type where
  maxInput : ℕ
  maxAtom : ℕ
  maxNodes : ℕ
  maxDepth : ℕ
  input_pos : 0 < maxInput
  nodes_pos : 0 < maxNodes
  atom_le : maxAtom ≤ maxInput
  depth_le : maxDepth ≤ maxNestingDepth
  input_usize : maxInput ≤ usizeMax
  nodes_usize : maxNodes ≤ usizeMax

namespace ParseLimits

def new (maxInput maxAtom maxNodes maxDepth : UInt64) : Outcome ParseError ParseLimits :=
  if h : maxInput.toNat = 0 ∨ maxNodes.toNat = 0 ∨ maxAtom.toNat > maxInput.toNat ∨
      maxDepth.toNat > maxNestingDepth then
    .err .invalidLimits
  else
    .ok {
      maxInput := maxInput.toNat
      maxAtom := maxAtom.toNat
      maxNodes := maxNodes.toNat
      maxDepth := maxDepth.toNat
      input_pos := by omega
      nodes_pos := by omega
      atom_le := by omega
      depth_le := by omega
      input_usize := Nat.le_sub_one_of_lt maxInput.toNat_lt
      nodes_usize := Nat.le_sub_one_of_lt maxNodes.toNat_lt }

def default : ParseLimits where
  maxInput := 16 * 1024 * 1024
  maxAtom := 16 * 1024 * 1024
  maxNodes := 65536
  maxDepth := 64
  input_pos := by decide
  nodes_pos := by decide
  atom_le := by decide
  depth_le := by decide
  input_usize := by decide
  nodes_usize := by decide

/-- Every value of the type, the default included, is one that `new` accepts. -/
theorem exists_new (limits : ParseLimits) :
    ∃ maxInput maxAtom maxNodes maxDepth, new maxInput maxAtom maxNodes maxDepth = .ok limits := by
  obtain ⟨input, atom, nodes, depth, hinput, hnodes, hatom, hdepth, hi, hn⟩ := limits
  have hword : ∀ {n : ℕ}, n ≤ usizeMax → (UInt64.ofNat n).toNat = n := by
    intro n h
    have hlt : n < 2 ^ 64 := by
      unfold usizeMax at h
      omega
    rw [UInt64.toNat_ofNat', Nat.mod_eq_of_lt hlt]
  have hdepthWord : depth ≤ usizeMax := Nat.le_trans hdepth (by decide)
  refine ⟨UInt64.ofNat input, UInt64.ofNat atom, UInt64.ofNat nodes, UInt64.ofNat depth, ?_⟩
  unfold new
  simp only [hword hi, hword (Nat.le_trans hatom hi), hword hn, hword hdepthWord]
  rw [dif_neg (by omega)]

end ParseLimits

/-! ## §2  Atoms -/

section Atom

variable (input : Bytes) (limits : ParseLimits)

/-- `while let Some(&byte) = input.get(*position)`: `rest` is what `position`
has not passed yet, `start` is the first digit. -/
def lengthLoop (start : ℕ) : Bytes → ℕ → ℕ → Outcome ParseError (ℕ × ℕ)
  | [], position, length => .ok (position, length)
  | byte :: rest, position, length =>
      if isAsciiDigit byte = false then .ok (position, length)
      else do
        -- `*position > start && input[start] == b'0'`: the index is evaluated second
        let leadingZero ← if position > start then do
            let first ← Outcome.index input[start]?
            pure (first == digitByte 0)
          else pure false
        if leadingZero then .err (.at_ .invalidLength position)
        else do
          let length ← Outcome.okOr (.at_ .lengthOverflow position)
            (checkedPush usizeMax length byte)
          let position ← Outcome.index (checkedAdd usizeMax position 1)
          lengthLoop start rest position length

/-- `input.get(start..end)`. -/
def getRange (start stop : ℕ) : Option Bytes :=
  if start ≤ stop ∧ stop ≤ input.length then some ((input.take stop).drop start) else none

/-- The `match` on the byte after the digits. -/
def expectColon (position : ℕ) : Outcome ParseError ℕ :=
  match input[position]? with
  | some byte =>
      if byte = Sexpr.colon then Outcome.index (checkedAdd usizeMax position 1)
      else .err (.at_ .expectedColon position)
  | none => .err (.at_ .unexpectedEof position)

/-- Returns the payload and the position after it. -/
def parseAtom (position : ℕ) : Outcome ParseError (Bytes × ℕ) := do
  let start := position
  let (position, length) ← lengthLoop input start (input.drop position) position 0
  let position ← expectColon input position
  if length > limits.maxAtom then .err (.at_ .atomLimit start)
  else do
    let stop ← Outcome.okOr (.at_ .lengthOverflow start) (checkedAdd usizeMax position length)
    let payload ← Outcome.okOr (.at_ .unexpectedEof input.length) (getRange input position stop)
    pure (payload, stop)

end Atom

/-! ## §3  The loop -/

/-- `lists` is the stack of open lists, innermost first; the children of each
are in order. -/
structure ParserState : Type where
  lists : List (List Sexpr)
  position : ℕ
  nodes : ℕ

/-- How one round of the loop ends. -/
inductive Round : Type where
  | again (s : ParserState)
  | finished (value : Sexpr) (consumed : ℕ)

/-- Returns the counter after the new node. -/
def countNode (nodes : ℕ) (limits : ParseLimits) (position : ℕ) : Outcome ParseError ℕ :=
  if nodes ≥ limits.maxNodes then .err (.at_ .nodeLimit position)
  else Outcome.index (checkedAdd usizeMax nodes 1)

section Loop

-- `reserve position len` tells whether `try_reserve(1)` succeeds on a vector of
-- `len` elements when the parser stands at `position`
variable (reserve : ℕ → ℕ → Bool) (input : Bytes) (limits : ParseLimits)

/-- The end of a round: a complete value joins the innermost open list, or is
the result. -/
def deliver (lists : List (List Sexpr)) (value : Sexpr) (position nodes : ℕ) :
    Outcome ParseError Round :=
  match lists with
  | parent :: outer =>
      if reserve position parent.length then
        .ok (.again ⟨(parent ++ [value]) :: outer, position, nodes⟩)
      else .err (.at_ .allocationFailed position)
  | [] => .ok (.finished value position)

def parseRound (s : ParserState) : Outcome ParseError Round := do
  let byte ← Outcome.okOr (.at_ .unexpectedEof s.position) input[s.position]?
  if byte = Sexpr.openParen then
    if s.lists.length ≥ limits.maxDepth then .err (.at_ .depthLimit s.position)
    else do
      let nodes ← countNode s.nodes limits s.position
      if reserve s.position s.lists.length then do
        let position ← Outcome.index (checkedAdd usizeMax s.position 1)
        pure (.again ⟨[] :: s.lists, position, nodes⟩)
      else .err (.at_ .allocationFailed s.position)
  else if byte = Sexpr.closeParen then
    match s.lists with
    | [] => .err (.at_ .unexpectedToken s.position)
    | children :: lists => do
        let position ← Outcome.index (checkedAdd usizeMax s.position 1)
        deliver reserve lists (.list children) position s.nodes
  else if isAsciiDigit byte then do
    let nodes ← countNode s.nodes limits s.position
    let (payload, position) ← parseAtom input limits s.position
    deliver reserve s.lists (.atom payload) position nodes
  else .err (.at_ .unexpectedToken s.position)

/-- The `loop`, with one unit of fuel for each round. -/
def parseLoop : ℕ → ParserState → Outcome ParseError (Sexpr × ℕ)
  | 0, _ => .panic
  | fuel + 1, s => do
      match ← parseRound reserve input limits s with
      | .again s => parseLoop fuel s
      | .finished value consumed => pure (value, consumed)

/-- Every round moves `position`, so the fuel is never used up
(`parsePrefix_ne_panic`). -/
def parsePrefix : Outcome ParseError (Sexpr × ℕ) :=
  if input.length > limits.maxInput then .err (.at_ .inputLimit limits.maxInput)
  else parseLoop reserve input limits (input.length + 1) ⟨[], 0, 0⟩

def parseComplete : Outcome ParseError Sexpr := do
  let (value, consumed) ← parsePrefix reserve input limits
  if consumed ≠ input.length then .err (.at_ .trailingData consumed)
  else pure value

end Loop

end Assuan
