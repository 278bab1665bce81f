import Assuan.Sexpr.Writer
import Assuan.Protocol.Command

/-!
# The `sexpr!` macro (`assuan-macros/src/sexpr.rs`)

The builder encodes a token tree while it parses it: it recurs into groups,
counts nodes on the way in and appends piece by piece within what is left of the
size limit. `syn` is seen through the tokens it delivers, a literal by its value
and its suffix.
-/

namespace Assuan

/-- A token tree, as `peek` distinguishes it. -/
inductive Token : Type where
  | paren (content : List Token)
  | litStr (value : String) (suffix : String)
  | litByteStr (value : Bytes) (suffix : String)
  | other

inductive BuildError : Type where
  /-- "S-expression node limit exceeded" -/
  | nodeLimit
  /-- "S-expression nesting limit exceeded" -/
  | nestingLimit
  /-- "literal suffixes are not supported" -/
  | suffix
  /-- "expected a string, byte string, or parenthesized list" -/
  | expected
  /-- "S-expression atom limit exceeded" -/
  | atomLimit
  /-- "S-expression encoded size limit exceeded" -/
  | sizeLimit
  /-- "cannot allocate S-expression output" -/
  | allocation
  /-- Tokens after the expression, refused by `syn::parse2`. -/
  | trailing
  /-- The error of `parse_complete`. -/
  | invalid (error : ParseError)
deriving DecidableEq, Repr

structure Builder : Type where
  bytes : Bytes
  nodes : ℕ
deriving DecidableEq, Repr

namespace Builder

/-! ## §1  The builder -/

section Build

-- `reserve len additional` as in the writer
variable (reserve : ℕ → ℕ → Bool) (limits : ParseLimits)

/-- The subtraction is `saturating_sub`. -/
def append (bytes : Bytes) (b : Builder) : Outcome BuildError Builder :=
  if bytes.length > limits.maxInput - b.bytes.length then .err .sizeLimit
  else if reserve b.bytes.length bytes.length then .ok { b with bytes := b.bytes ++ bytes }
  else .err .allocation

def atom (bytes : Bytes) (b : Builder) : Outcome BuildError Builder :=
  if bytes.length > limits.maxAtom then .err .atomLimit
  else do
    let b ← append reserve limits (decimal bytes.length) b
    let b ← append reserve limits [Sexpr.colon] b
    append reserve limits bytes b

/-- The node counter at the start of `expression`. -/
def countNode (b : Builder) : Outcome BuildError Builder :=
  if b.nodes ≥ limits.maxNodes then .err .nodeLimit
  else do
    let nodes ← Outcome.index (checkedAdd usizeMax b.nodes 1)
    pure { b with nodes := nodes }

mutual

/-- `expression`, on the token at the front of the stream. -/
def expression (depth : ℕ) (token : Token) (b : Builder) : Outcome BuildError Builder := do
  let b ← countNode limits b
  match token with
  | .paren content =>
      if depth ≥ limits.maxDepth then .err .nestingLimit
      else do
        let b ← append reserve limits [Sexpr.openParen] b
        let b ← expressions (depth + 1) content b
        append reserve limits [Sexpr.closeParen] b
  | .litStr value suffix =>
      if suffix ≠ "" then .err .suffix else atom reserve limits (asBytes value) b
  | .litByteStr value suffix =>
      if suffix ≠ "" then .err .suffix else atom reserve limits value b
  | .other => .err .expected

/-- `while !content.is_empty()`. -/
def expressions (depth : ℕ) (content : List Token) (b : Builder) :
    Outcome BuildError Builder :=
  match content with
  | [] => .ok b
  | token :: content => do
      let b ← expression depth token b
      expressions depth content b

end

end Build

/-- `Literal::parse` under `syn::parse2`: one expression and nothing after it. -/
def parse (reserve : ℕ → ℕ → Bool) (input : List Token) : Outcome BuildError Bytes :=
  match input with
  | [] => do
      let _ ← countNode .default ⟨[], 0⟩
      .err .expected
  | token :: rest => do
      let b ← expression reserve .default 0 token ⟨[], 0⟩
      if rest.isEmpty then .ok b.bytes else .err .trailing

/-- The bytes of the literal that `expand` produces. -/
def expand (reserve parserReserve : ℕ → ℕ → Bool) (input : List Token) :
    Outcome BuildError Bytes := do
  let bytes ← parse reserve input
  let _ ← (parseComplete parserReserve bytes .default).mapErr .invalid
  .ok bytes

end Builder

/-! ## §2  Token trees as S-expressions -/

mutual

/-- The tree that lists and unsuffixed literals denote. -/
def Token.tree : Token → Option Sexpr
  | .paren content => (Token.trees content).map .list
  | .litStr value suffix => if suffix = "" then some (.atom (asBytes value)) else none
  | .litByteStr value suffix => if suffix = "" then some (.atom value) else none
  | .other => none

def Token.trees : List Token → Option (List Sexpr)
  | [] => some []
  | token :: content => do
      let v ← Token.tree token
      let vs ← Token.trees content
      pure (v :: vs)

end

/-! ## §3  What the builder accepts -/

namespace Builder

open Sexpr

/-- The builder after the encoding of a tree. -/
def extend (b : Builder) (bytes : Bytes) (nodes : ℕ) : Builder :=
  ⟨b.bytes ++ bytes, b.nodes + nodes⟩

/-- Nothing has been exceeded so far. -/
structure Within (limits : ParseLimits) (depth : ℕ) (b : Builder) : Prop where
  size : b.bytes.length ≤ limits.maxInput
  nodes : b.nodes ≤ limits.maxNodes
  depth : depth ≤ limits.maxDepth

/-- The tree fits into what is left of the limits. -/
structure Fits (limits : ParseLimits) (depth : ℕ) (b : Builder) (v : Sexpr) : Prop where
  nodes : b.nodes + v.nodes ≤ limits.maxNodes
  depth : depth + v.depth ≤ limits.maxDepth
  atoms : v.AtomsWithin limits.maxAtom
  size : b.bytes.length + v.canon.length ≤ limits.maxInput

structure FitsAll (limits : ParseLimits) (depth : ℕ) (b : Builder) (vs : List Sexpr) : Prop where
  nodes : b.nodes + nodesList vs ≤ limits.maxNodes
  depth : depth + depthList vs ≤ limits.maxDepth
  atoms : AtomsWithinList limits.maxAtom vs
  size : b.bytes.length + (canonList vs).length ≤ limits.maxInput

section Accepts

variable {reserve : ℕ → ℕ → Bool} {limits : ParseLimits}

theorem append_eq_ok (hreserve : ∀ n m, reserve n m = true) {b b' : Builder} {bytes : Bytes}
    (hb : b.bytes.length ≤ limits.maxInput) :
    append reserve limits bytes b = .ok b' ↔
      b.bytes.length + bytes.length ≤ limits.maxInput ∧ b' = b.extend bytes 0 := by
  unfold append
  by_cases hsize : bytes.length > limits.maxInput - b.bytes.length
  · have hnot : ¬ b.bytes.length + bytes.length ≤ limits.maxInput := by omega
    simp [hsize, hnot]
  · have hfits : b.bytes.length + bytes.length ≤ limits.maxInput := by omega
    simp [hsize, hfits, hreserve, extend, eq_comm]

theorem countNode_eq_ok {b b' : Builder} :
    countNode limits b = .ok b' ↔ b.nodes < limits.maxNodes ∧ b' = b.extend [] 1 := by
  unfold countNode
  by_cases h : b.nodes ≥ limits.maxNodes
  · have hnot : ¬ b.nodes < limits.maxNodes := by omega
    simp [h, hnot]
  · have hlt : b.nodes < limits.maxNodes := by omega
    have hadd : checkedAdd usizeMax b.nodes 1 = some (b.nodes + 1) := by
      have := limits.nodes_usize
      exact checkedAdd_eq_some.mpr ⟨by omega, rfl⟩
    simp [h, hlt, hadd, extend, eq_comm]

theorem extend_extend (b : Builder) (bytes bytes' : Bytes) (nodes nodes' : ℕ) :
    (b.extend bytes nodes).extend bytes' nodes' =
      b.extend (bytes ++ bytes') (nodes + nodes') := by
  simp only [extend, List.append_assoc, Nat.add_assoc]

theorem length_extend (b : Builder) (bytes : Bytes) (nodes : ℕ) :
    (b.extend bytes nodes).bytes.length = b.bytes.length + bytes.length := by
  rw [extend, List.length_append]

theorem nodes_extend (b : Builder) (bytes : Bytes) (nodes : ℕ) :
    (b.extend bytes nodes).nodes = b.nodes + nodes := rfl

/-- The three pieces of an atom fit when their sum does. -/
theorem atom_eq_ok (hreserve : ∀ n m, reserve n m = true) {b b' : Builder} {bytes : Bytes}
    (hb : b.bytes.length ≤ limits.maxInput) :
    atom reserve limits bytes b = .ok b' ↔
      bytes.length ≤ limits.maxAtom ∧
        b.bytes.length + (canonAtom bytes).length ≤ limits.maxInput ∧
        b' = b.extend (canonAtom bytes) 0 := by
  have hlen : (canonAtom bytes).length = (decimal bytes.length).length + 1 + bytes.length := by
    simp only [canonAtom, List.length_append, List.length_cons]
    omega
  have hparts : decimal bytes.length ++ [colon] ++ bytes = canonAtom bytes := by
    simp only [canonAtom, List.append_assoc, List.singleton_append]
  unfold atom
  by_cases hatom : bytes.length > limits.maxAtom
  · have hnot : ¬ bytes.length ≤ limits.maxAtom := by omega
    simp [hatom, hnot]
  rw [if_neg hatom]
  constructor
  · intro h
    obtain ⟨b₁, hdigits, h⟩ := Outcome.bind_eq_ok.mp h
    obtain ⟨h₁, rfl⟩ := (append_eq_ok hreserve hb).mp hdigits
    obtain ⟨b₂, hcolon, h⟩ := Outcome.bind_eq_ok.mp h
    obtain ⟨h₂, rfl⟩ := (append_eq_ok hreserve (by rwa [length_extend])).mp hcolon
    rw [length_extend] at h₂
    obtain ⟨h₃, rfl⟩ :=
      (append_eq_ok hreserve (by rwa [length_extend, length_extend])).mp h
    rw [length_extend, length_extend] at h₃
    simp only [List.length_singleton] at h₃
    exact ⟨by omega, by omega, by rw [extend_extend, extend_extend, ← List.append_assoc, hparts]⟩
  · rintro ⟨-, hsize, rfl⟩
    have hone : [colon].length = 1 := rfl
    have h₁ : append reserve limits (decimal bytes.length) b =
        .ok (b.extend (decimal bytes.length) 0) :=
      (append_eq_ok hreserve hb).mpr ⟨by omega, rfl⟩
    have h₂ : append reserve limits [colon] (b.extend (decimal bytes.length) 0) =
        .ok (b.extend (decimal bytes.length ++ [colon]) 0) :=
      (append_eq_ok hreserve (by rw [length_extend]; omega)).mpr
        ⟨by rw [length_extend]; omega, by rw [extend_extend]⟩
    rw [h₁, Outcome.ok_bind, h₂, Outcome.ok_bind]
    refine (append_eq_ok hreserve ?_).mpr ⟨?_, ?_⟩
    · rw [length_extend, List.length_append]
      omega
    · rw [length_extend, List.length_append]
      omega
    · rw [extend_extend, hparts]

/-- A literal with a value is an atom of one node. -/
theorem literal_eq_ok (hreserve : ∀ n m, reserve n m = true) {depth : ℕ} {b b' : Builder}
    {bytes : Bytes} (hb : b.Within limits depth) :
    (countNode limits b >>= atom reserve limits bytes) = .ok b' ↔
      Fits limits depth b (.atom bytes) ∧ b' = b.extend (canonAtom bytes) 1 := by
  have hempty : (b.extend [] 1).bytes.length ≤ limits.maxInput := by
    rw [length_extend]
    exact hb.size
  constructor
  · intro h
    obtain ⟨b₁, hcount, h⟩ := Outcome.bind_eq_ok.mp h
    obtain ⟨hnodes, rfl⟩ := countNode_eq_ok.mp hcount
    obtain ⟨hatom, hsize, rfl⟩ := (atom_eq_ok hreserve hempty).mp h
    rw [length_extend] at hsize
    refine ⟨⟨hnodes, hb.depth, hatom, hsize⟩, ?_⟩
    rw [extend_extend, List.nil_append]
  · rintro ⟨hfits, rfl⟩
    have hcount : countNode limits b = .ok (b.extend [] 1) := countNode_eq_ok.mpr ⟨hfits.nodes, rfl⟩
    rw [hcount, Outcome.ok_bind]
    refine (atom_eq_ok hreserve hempty).mpr ⟨hfits.atoms, ?_, ?_⟩
    · rw [length_extend]
      exact hfits.size
    · rw [extend_extend, List.nil_append]

/-! ### A group -/

/-- The builder inside a group, after its opening parenthesis. -/
def opened (b : Builder) : Builder := b.extend [openParen] 1

theorem length_opened (b : Builder) : b.opened.bytes.length = b.bytes.length + 1 :=
  length_extend b [openParen] 1

/-- What `expressions` does with the content of a group that denotes `vs`. -/
def Collects (reserve : ℕ → ℕ → Bool) (limits : ParseLimits) (depth : ℕ) (content : List Token)
    (vs : List Sexpr) : Prop :=
  ∀ {b b' : Builder}, b.Within limits depth →
    (expressions reserve limits depth content b = .ok b' ↔
      FitsAll limits depth b vs ∧ b' = b.extend (canonList vs) (nodesList vs))

section Group

variable {depth : ℕ} {b b' : Builder} {content : List Token} {vs : List Sexpr}

theorem length_canon_list (vs : List Sexpr) :
    (canon (.list vs)).length = (canonList vs).length + 2 := by
  simp only [canon, List.length_cons, List.length_append, List.length_nil]

theorem canon_list_parts (vs : List Sexpr) :
    [openParen] ++ canonList vs ++ [closeParen] = canon (.list vs) := by
  rw [canon]
  rfl

theorem group_fits (hreserve : ∀ n m, reserve n m = true)
    (hcontent : Collects reserve limits (depth + 1) content vs) (hb : b.Within limits depth)
    (h : expression reserve limits depth (.paren content) b = .ok b') :
    Fits limits depth b (.list vs) ∧ b' = b.extend (canon (.list vs)) (Sexpr.nodes (.list vs)) := by
  rw [expression] at h
  obtain ⟨b₁, hcount, h⟩ := Outcome.bind_eq_ok.mp h
  obtain ⟨hnodes, rfl⟩ := countNode_eq_ok.mp hcount
  by_cases hdepth : depth ≥ limits.maxDepth
  · simp [hdepth] at h
  simp only [if_neg hdepth] at h
  obtain ⟨b₂, hopen, h⟩ := Outcome.bind_eq_ok.mp h
  obtain ⟨hroom, rfl⟩ :=
    (append_eq_ok hreserve (by rw [length_extend]; exact hb.size)).mp hopen
  rw [length_extend] at hroom
  rw [extend_extend, List.nil_append] at h
  obtain ⟨b₃, hinner, h⟩ := Outcome.bind_eq_ok.mp h
  have hin : b.opened.Within limits (depth + 1) :=
    ⟨by rw [length_opened]; exact hroom, hnodes, by omega⟩
  obtain ⟨hall, rfl⟩ := (hcontent hin).mp hinner
  have hfit := hall.size
  obtain ⟨hend, rfl⟩ := (append_eq_ok hreserve (by rw [length_extend]; exact hfit)).mp h
  rw [length_extend, length_opened, List.length_singleton] at hend
  have hcounted := hall.nodes
  have hnested := hall.depth
  have hsize := length_canon_list vs
  rw [opened, nodes_extend] at hcounted
  refine ⟨⟨?_, ?_, hall.atoms, by omega⟩, ?_⟩
  · rw [Sexpr.nodes]
    omega
  · rw [Sexpr.depth]
    omega
  · rw [opened, extend_extend, extend_extend, ← List.append_assoc, canon_list_parts, Sexpr.nodes,
      Nat.add_zero]

theorem group_built (hreserve : ∀ n m, reserve n m = true)
    (hcontent : Collects reserve limits (depth + 1) content vs) (hb : b.Within limits depth)
    (hfits : Fits limits depth b (.list vs)) :
    expression reserve limits depth (.paren content) b =
      .ok (b.extend (canon (.list vs)) (Sexpr.nodes (.list vs))) := by
  have hcounted := hfits.nodes
  have hnested := hfits.depth
  have hroom := hfits.size
  rw [length_canon_list] at hroom
  rw [Sexpr.nodes] at hcounted
  rw [Sexpr.depth] at hnested
  have hcount : countNode limits b = .ok (b.extend [] 1) :=
    countNode_eq_ok.mpr ⟨by omega, rfl⟩
  have hopen : append reserve limits [openParen] (b.extend [] 1) = .ok b.opened := by
    refine (append_eq_ok hreserve (by rw [length_extend]; exact hb.size)).mpr ⟨?_, ?_⟩
    · rw [length_extend, List.length_nil, List.length_singleton]
      omega
    · rw [opened, extend_extend, List.nil_append]
  have hin : b.opened.Within limits (depth + 1) :=
    ⟨by rw [length_opened]; omega, by rw [opened, nodes_extend]; omega, by omega⟩
  have hinner : expressions reserve limits (depth + 1) content b.opened =
      .ok (b.opened.extend (canonList vs) (nodesList vs)) := by
    refine (hcontent hin).mpr ⟨⟨?_, by omega, hfits.atoms, ?_⟩, rfl⟩
    · rw [opened, nodes_extend]
      omega
    · rw [length_opened]
      omega
  rw [expression, hcount, Outcome.ok_bind]
  simp only [if_neg (show ¬ depth ≥ limits.maxDepth by omega)]
  rw [hopen, Outcome.ok_bind, hinner, Outcome.ok_bind]
  refine (append_eq_ok hreserve ?_).mpr ⟨?_, ?_⟩
  · rw [length_extend, length_opened]
    omega
  · rw [length_extend, length_opened, List.length_singleton]
    omega
  · rw [opened, extend_extend, extend_extend, ← List.append_assoc, canon_list_parts, Sexpr.nodes,
      Nat.add_zero]

end Group

mutual

/-- `expression` succeeds when the tree fits, and then appends its encoding. -/
theorem expression_eq_ok (hreserve : ∀ n m, reserve n m = true) (token : Token) {depth : ℕ}
    {b b' : Builder} {v : Sexpr} (hv : token.tree = some v) (hb : b.Within limits depth) :
    expression reserve limits depth token b = .ok b' ↔
      Fits limits depth b v ∧ b' = b.extend v.canon v.nodes := by
  cases token with
  | other => exact absurd hv (by simp [Token.tree])
  | litStr value suffix =>
      by_cases hsuffix : suffix = ""
      · obtain rfl : Sexpr.atom (asBytes value) = v := by simpa [Token.tree, hsuffix] using hv
        subst hsuffix
        exact literal_eq_ok hreserve hb
      · simp [Token.tree, hsuffix] at hv
  | litByteStr value suffix =>
      by_cases hsuffix : suffix = ""
      · obtain rfl : Sexpr.atom value = v := by simpa [Token.tree, hsuffix] using hv
        subst hsuffix
        exact literal_eq_ok hreserve hb
      · simp [Token.tree, hsuffix] at hv
  | paren content =>
      obtain ⟨vs, hvs, rfl⟩ : ∃ vs, Token.trees content = some vs ∧ .list vs = v := by
        simpa [Token.tree] using hv
      have hcontent : Collects reserve limits (depth + 1) content vs :=
        fun hin => expressions_eq_ok hreserve content hvs hin
      constructor
      · exact group_fits hreserve hcontent hb
      · rintro ⟨hfits, rfl⟩
        exact group_built hreserve hcontent hb hfits

theorem expressions_eq_ok (hreserve : ∀ n m, reserve n m = true) (content : List Token)
    {depth : ℕ} {b b' : Builder} {vs : List Sexpr} (hvs : Token.trees content = some vs)
    (hb : b.Within limits depth) :
    expressions reserve limits depth content b = .ok b' ↔
      FitsAll limits depth b vs ∧ b' = b.extend (canonList vs) (nodesList vs) := by
  cases content with
  | nil =>
      obtain rfl : [] = vs := by simpa [Token.trees] using hvs
      have hall : FitsAll limits depth b [] := ⟨hb.nodes, hb.depth, trivial, hb.size⟩
      have hsame : b.extend [] 0 = b := by simp [extend]
      simp only [expressions, canonList, nodesList, hsame, Outcome.ok.injEq, hall, true_and]
      exact eq_comm
  | cons token content =>
      obtain ⟨v, hv, rest, hrest, rfl⟩ : ∃ v, token.tree = some v ∧
          ∃ rest, Token.trees content = some rest ∧ v :: rest = vs := by
        simpa [Token.trees, Option.bind_eq_some_iff] using hvs
      rw [expressions]
      constructor
      · intro h
        obtain ⟨b₁, hfirst, h⟩ := Outcome.bind_eq_ok.mp h
        obtain ⟨hfits, rfl⟩ := (expression_eq_ok hreserve token hv hb).mp hfirst
        have hin : (b.extend v.canon v.nodes).Within limits depth :=
          ⟨by rw [length_extend]; exact hfits.size, hfits.nodes, hb.depth⟩
        obtain ⟨hall, rfl⟩ := (expressions_eq_ok hreserve content hrest hin).mp h
        have hcounted := hall.nodes
        have hsize := hall.size
        have hdepth := hfits.depth
        have hnested := hall.depth
        rw [nodes_extend] at hcounted
        rw [length_extend] at hsize
        refine ⟨⟨?_, ?_, ⟨hfits.atoms, hall.atoms⟩, ?_⟩, ?_⟩
        · rw [nodesList]
          omega
        · rw [depthList]
          omega
        · rw [canonList, List.length_append]
          omega
        · rw [extend_extend, canonList, nodesList]
      · rintro ⟨hall, rfl⟩
        have hcounted := hall.nodes
        have hsize := hall.size
        have hnested := hall.depth
        rw [nodesList] at hcounted
        rw [canonList, List.length_append] at hsize
        rw [depthList] at hnested
        have hfits : Fits limits depth b v :=
          ⟨by omega, by omega, hall.atoms.1, by omega⟩
        have hin : (b.extend v.canon v.nodes).Within limits depth :=
          ⟨by rw [length_extend]; omega, by rw [nodes_extend]; omega, hb.depth⟩
        rw [(expression_eq_ok hreserve token hv hb).mpr ⟨hfits, rfl⟩, Outcome.ok_bind]
        refine (expressions_eq_ok hreserve content hrest hin).mpr
          ⟨⟨?_, by omega, hall.atoms.2, ?_⟩, ?_⟩
        · rw [nodes_extend]
          omega
        · rw [length_extend]
          omega
        · rw [extend_extend, canonList, nodesList]

end

end Accepts

/-- **The macro agrees with the writer.** On a token tree that denotes `t`, the
builder succeeds exactly when `t.to_canonical()` does, with the same bytes; they
parse back to `t`, so that the macro expands to them. -/
theorem expression_agrees {reserve writerReserve parserReserve : ℕ → ℕ → Bool}
    (hreserve : ∀ n m, reserve n m = true) (hwriter : ∀ n m, writerReserve n m = true)
    (hparser : ∀ p n, parserReserve p n = true) (token : Token) (t : Sexpr)
    (ht : token.tree = some t) :
    (∀ bytes, (∃ b, expression reserve .default 0 token ⟨[], 0⟩ = .ok b ∧ b.bytes = bytes) ↔
      toCanonical writerReserve t = .ok bytes) ∧
    ∀ b, expression reserve .default 0 token ⟨[], 0⟩ = .ok b →
      parseComplete parserReserve b.bytes .default = .ok t ∧
        expand reserve parserReserve [token] = .ok b.bytes := by
  have hstart : Within .default 0 ⟨[], 0⟩ := ⟨Nat.zero_le _, Nat.zero_le _, Nat.zero_le _⟩
  have hbuilt : ∀ b, expression reserve .default 0 token ⟨[], 0⟩ = .ok b ↔
      Fits .default 0 ⟨[], 0⟩ t ∧ b = extend ⟨[], 0⟩ t.canon t.nodes :=
    fun b => expression_eq_ok hreserve token ht hstart
  -- from the empty builder the limits are those of the writer
  have hlimits : Fits .default 0 ⟨[], 0⟩ t ↔ Writable t [] := by
    constructor
    · rintro ⟨hnodes, hdepth, hatoms, hsize⟩
      rw [Nat.zero_add] at hnodes hdepth
      exact ⟨hnodes, hdepth, hatoms, hsize⟩
    · rintro ⟨hnodes, hdepth, hatoms, hsize⟩
      refine ⟨?_, ?_, hatoms, hsize⟩
      · rw [Nat.zero_add]
        exact hnodes
      · rw [Nat.zero_add]
        exact hdepth
  constructor
  · intro bytes
    rw [toCanonical_eq_ok hwriter, ← hlimits]
    constructor
    · rintro ⟨b, hb, rfl⟩
      obtain ⟨hfits, rfl⟩ := (hbuilt b).mp hb
      exact ⟨hfits, rfl⟩
    · rintro ⟨hfits, rfl⟩
      exact ⟨_, (hbuilt _).mpr ⟨hfits, rfl⟩, rfl⟩
  · intro b hb
    obtain ⟨hfits, rfl⟩ := (hbuilt b).mp hb
    have hsize := hfits.size
    have hparsed : parseComplete parserReserve t.canon .default = .ok t := by
      have hfront := @parsePrefix_complete parserReserve t.canon .default hparser t []
        (List.append_nil _).symm (by simpa using hsize)
        ⟨hfits.atoms, by simpa using hfits.nodes, by simpa using hfits.depth⟩
      unfold parseComplete
      rw [hfront, Outcome.ok_bind]
      simp
    refine ⟨hparsed, ?_⟩
    have hread : parse reserve [token] = .ok t.canon := by
      simp only [parse, hb, Outcome.ok_bind]
      rfl
    unfold expand
    rw [hread, Outcome.ok_bind, hparsed]
    rfl

/-- `sexpr!(("a" b"" ()))`. -/
theorem expression_agrees_list :
    (∃ b, expression (fun _ _ => true) .default 0
        (.paren [.litStr "a" "", .litByteStr [] "", .paren []]) ⟨[], 0⟩ = .ok b ∧
      b.bytes = [40, 49, 58, 97, 48, 58, 40, 41, 41]) ∧
    toCanonical (fun _ _ => true) (.list [.atom [97], .atom [], .list []]) =
      .ok [40, 49, 58, 97, 48, 58, 40, 41, 41] := by
  have hagrees := (@expression_agrees (fun _ _ => true) (fun _ _ => true) (fun _ _ => true)
    (fun _ _ => rfl) (fun _ _ => rfl) (fun _ _ => rfl)
    (.paren [.litStr "a" "", .litByteStr [] "", .paren []])
    (.list [.atom [97], .atom [], .list []]) rfl).1 [40, 49, 58, 97, 48, 58, 40, 41, 41]
  have hbuilt : ∃ b, expression (fun _ _ => true) .default 0
      (.paren [.litStr "a" "", .litByteStr [] "", .paren []]) ⟨[], 0⟩ = .ok b ∧
      b.bytes = [40, 49, 58, 97, 48, 58, 40, 41, 41] := by
    exact ⟨⟨[40, 49, 58, 97, 48, 58, 40, 41, 41], 4⟩, by decide +kernel, rfl⟩
  exact ⟨hbuilt, hagrees.mp hbuilt⟩

end Builder

end Assuan
