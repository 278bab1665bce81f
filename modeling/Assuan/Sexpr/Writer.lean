import Assuan.Sexpr.ParserSpec

/-!
# The canonical writer (`assuan-sexpr/src/writer.rs`)

Two traversals with explicit stacks: `measure` computes the size of the encoding
under the limits, and only then does `write_canonical` append to the output. The
stacks are lists with the top at the head. `reserve len additional` tells whether
`try_reserve(additional)` succeeds on a vector of `len` elements.
-/

namespace Assuan

inductive EncodeError : Type where
  | sizeLimit
  | atomLimit
  | nodeLimit
  | depthLimit
  | lengthOverflow
  | allocationFailed
deriving DecidableEq, Repr

/-! ## §1  Lengths -/

/-- `while value >= 10 { value /= 10; count += 1 }`. -/
def decimalDigitsLoop (value count : ℕ) : ℕ :=
  if 10 ≤ value then decimalDigitsLoop (value / 10) (count + 1) else count
termination_by value

def decimalDigits (value : ℕ) : ℕ := decimalDigitsLoop value 1

/-- Appends the digits that the loop leaves at the end of its array. -/
def writeLength (value : ℕ) (output : Bytes) : Outcome EncodeError Bytes := do
  let (position, digits) ← digitLoop value 40 (Buffer.zero 40)
  .ok (output ++ digits.bytes.drop position)

/-! ## §2  Measuring -/

structure Layout : Type where
  bytes : ℕ
  nodes : ℕ
deriving DecidableEq, Repr

section Writer

variable (reserve : ℕ → ℕ → Bool) (limits : ParseLimits)

/-- The `match` in the loop of `measure`: the bytes of this node and the stack with
its children. -/
def measureNode (nodes : ℕ) (pending : List (Sexpr × ℕ)) (depth : ℕ) :
    Sexpr → Outcome EncodeError (ℕ × List (Sexpr × ℕ))
  | .atom bytes =>
      if bytes.length > limits.maxAtom then .err .atomLimit
      else do
        let added ← Outcome.okOr .lengthOverflow
          ((checkedAdd usizeMax (decimalDigits bytes.length) 1).bind
            (checkedAdd usizeMax · bytes.length))
        .ok (added, pending)
  | .list children =>
      if depth ≥ limits.maxDepth then .err .depthLimit
      else do
        let minimumNodes ← Outcome.okOr .lengthOverflow
          ((checkedAdd usizeMax nodes pending.length).bind (checkedAdd usizeMax · children.length))
        if minimumNodes > limits.maxNodes then .err .nodeLimit
        else if reserve pending.length children.length then
          .ok (2, children.map (·, depth + 1) ++ pending)
        else .err .allocationFailed

/-- One round: the popped node, what is left on the stack and the layout so far. -/
def measureRound (value : Sexpr) (depth : ℕ) (pending : List (Sexpr × ℕ)) (layout : Layout) :
    Outcome EncodeError (Layout × List (Sexpr × ℕ)) :=
  if layout.nodes ≥ limits.maxNodes then .err .nodeLimit
  else do
    let nodes ← Outcome.index (checkedAdd usizeMax layout.nodes 1)
    let (added, pending) ← measureNode reserve limits nodes pending depth value
    let bytes ← Outcome.okOr .lengthOverflow (checkedAdd usizeMax layout.bytes added)
    if bytes > limits.maxInput then .err .sizeLimit else .ok (⟨bytes, nodes⟩, pending)

/-- The `while let`, with one unit of fuel for each round. -/
def measureLoop : ℕ → List (Sexpr × ℕ) → Layout → Outcome EncodeError Layout
  | 0, _, _ => .panic
  | _ + 1, [], layout => .ok layout
  | fuel + 1, (value, depth) :: pending, layout => do
      let (layout, pending) ← measureRound reserve limits value depth pending layout
      measureLoop fuel pending layout

/-- Every round counts a node, so the fuel is never used up. -/
def measure (value : Sexpr) : Outcome EncodeError Layout :=
  if reserve 0 1 then measureLoop reserve limits (limits.maxNodes + 2) [(value, 0)] ⟨0, 0⟩
  else .err .allocationFailed

/-! ## §3  Writing -/

inductive Pending : Type where
  | value (value : Sexpr)
  | closeList

/-- The `while let` of `write_canonical`, with one unit of fuel for each round. -/
def writeLoop : ℕ → List Pending → Bytes → Outcome EncodeError Bytes
  | 0, _, _ => .panic
  | _ + 1, [], output => .ok output
  | fuel + 1, .value (.atom bytes) :: pending, output => do
      let output ← writeLength bytes.length output
      writeLoop fuel pending (output ++ [Sexpr.colon] ++ bytes)
  | fuel + 1, .value (.list children) :: pending, output =>
      writeLoop fuel (children.map .value ++ .closeList :: pending) (output ++ [Sexpr.openParen])
  | fuel + 1, .closeList :: pending, output =>
      writeLoop fuel pending (output ++ [Sexpr.closeParen])

/-- The fallible part of `write_canonical`: the layout and the final length. -/
def prepareCanonical (value : Sexpr) (output : Bytes) : Outcome EncodeError (Layout × ℕ) := do
  let layout ← measure reserve .default value
  let finalLen ← Outcome.okOr .lengthOverflow (checkedAdd usizeMax output.length layout.bytes)
  if finalLen > ParseLimits.default.maxInput then .err .sizeLimit
  else if reserve 0 layout.nodes = false then .err .allocationFailed
  else if reserve output.length layout.bytes = false then .err .allocationFailed
  else .ok (layout, finalLen)

/-- The result and the output afterwards. A list is visited twice, so two rounds for
each node are enough. -/
def writeCanonical (value : Sexpr) (output : Bytes) : Outcome EncodeError Unit × Bytes :=
  match prepareCanonical reserve value output with
  | .ok (layout, finalLen) =>
      match writeLoop (2 * layout.nodes + 1) [.value value] output with
      | .ok written =>
          -- `debug_assert_eq!(output.len(), final_len)`
          if written.length = finalLen then (.ok (), written) else (.panic, written)
      | _ => (.panic, output)
  | .err e => (.err e, output)
  | .panic => (.panic, output)
  | .dropped => (.dropped, output)

def toCanonical (value : Sexpr) : Outcome EncodeError Bytes :=
  match writeCanonical reserve value [] with
  | (.ok (), output) => .ok output
  | (.err e, _) => .err e
  | (.panic, _) => .panic
  | (.dropped, _) => .dropped

end Writer

/-! ## §4  What the loops compute -/

open Sexpr

theorem decimalDigitsLoop_eq (value count : ℕ) :
    decimalDigitsLoop value count + 1 = count + (decimal value).length := by
  induction value using Nat.strongRecOn generalizing count with
  | ind value ih =>
      rw [decimalDigitsLoop]
      split
      · next h =>
          rw [ih (value / 10) (by omega), decimal_ge h, List.length_append, List.length_singleton]
          omega
      · next h =>
          rw [decimal_lt (by omega), List.length_singleton]

/-- The digit counter agrees with the digit writer. -/
theorem decimalDigits_eq (value : ℕ) : decimalDigits value = (decimal value).length := by
  have hloop := decimalDigitsLoop_eq value 1
  rw [decimalDigits]
  omega

theorem writeLength_eq {value : ℕ} (h : (decimal value).length ≤ 40) (output : Bytes) :
    writeLength value output = .ok (output ++ decimal value) := by
  obtain ⟨position, digits, hrun, hdigits⟩ :=
    @digitLoop_spec EncodeError 40 value 40 (Buffer.zero 40) (Nat.le_refl _) h
  have hnil : (Buffer.zero 40).bytes.drop 40 = [] := List.drop_of_length_le (by rw [Buffer.size])
  simp only [writeLength, hrun, Outcome.ok_bind, hdigits, hnil, List.append_nil]

theorem length_canonAtom (bytes : Bytes) :
    (canonAtom bytes).length = decimalDigits bytes.length + 1 + bytes.length := by
  rw [canonAtom, List.length_append, List.length_cons, decimalDigits_eq]
  omega

/-! ### Totals over a stack -/

/-- The lower bound of the early test. -/
theorem length_le_nodesList (vs : List Sexpr) : vs.length ≤ nodesList vs := by
  induction vs with
  | nil => exact Nat.le_refl _
  | cons v vs ih =>
      have hpos := nodes_pos v
      rw [nodesList, List.length_cons]
      omega

theorem depthList_le_iff {vs : List Sexpr} {k : ℕ} :
    depthList vs ≤ k ↔ ∀ v ∈ vs, v.depth ≤ k := by
  induction vs with
  | nil => simp [depthList]
  | cons v vs ih => simp [depthList, ih]

theorem atomsWithinList_iff {vs : List Sexpr} {k : ℕ} :
    AtomsWithinList k vs ↔ ∀ v ∈ vs, v.AtomsWithin k := by
  induction vs with
  | nil => simp [AtomsWithinList]
  | cons v vs ih => simp [AtomsWithinList, ih]

/-- The layout with everything on the stack added. -/
def Layout.total (layout : Layout) (stack : List (Sexpr × ℕ)) : Layout :=
  ⟨layout.bytes + (canonList (stack.map Prod.fst)).length,
    layout.nodes + nodesList (stack.map Prod.fst)⟩

/-- A node on the stack, with the number of lists around it, respects the limits. -/
def ItemWithin (limits : ParseLimits) (item : Sexpr × ℕ) : Prop :=
  item.2 + item.1.depth ≤ limits.maxDepth ∧ item.1.AtomsWithin limits.maxAtom

/-- What is measured and what is still on the stack are within the limits. -/
structure FitsWithin (limits : ParseLimits) (layout : Layout) (stack : List (Sexpr × ℕ)) : Prop where
  nodes : (layout.total stack).nodes ≤ limits.maxNodes
  bytes : (layout.total stack).bytes ≤ limits.maxInput
  items : ∀ item ∈ stack, ItemWithin limits item

/-- A round that goes on moves the popped node from the stack into the layout. -/
structure Continues (limits : ParseLimits) (layout : Layout) (stack : List (Sexpr × ℕ))
    (layout' : Layout) (stack' : List (Sexpr × ℕ)) : Prop where
  total : layout'.total stack' = layout.total stack
  nodes : layout'.nodes = layout.nodes + 1
  items : (∀ item ∈ stack', ItemWithin limits item) ↔ ∀ item ∈ stack, ItemWithin limits item
  depths : ∀ item ∈ stack', item.2 ≤ limits.maxDepth

section Measure

variable {reserve : ℕ → ℕ → Bool} {limits : ParseLimits} {layout : Layout}
  {pending : List (Sexpr × ℕ)} {depth : ℕ}

theorem total_atom (bytes : Bytes) : layout.total ((.atom bytes, depth) :: pending) =
    ⟨layout.bytes + (canonAtom bytes).length + (canonList (pending.map Prod.fst)).length,
      layout.nodes + 1 + nodesList (pending.map Prod.fst)⟩ := by
  simp only [Layout.total, List.map_cons, canonList, canon, nodesList, Sexpr.nodes,
    List.length_append, Nat.add_assoc]

theorem map_fst_children (children : List Sexpr) :
    (children.map (·, depth + 1) ++ pending).map Prod.fst =
      children ++ pending.map Prod.fst := by
  rw [List.map_append, List.map_map]
  congr 1
  exact List.map_id _

theorem total_list (children : List Sexpr) : layout.total ((.list children, depth) :: pending) =
    ⟨layout.bytes + 2 + (canonList (children ++ pending.map Prod.fst)).length,
      layout.nodes + 1 + nodesList (children ++ pending.map Prod.fst)⟩ := by
  simp only [Layout.total, List.map_cons, canonList, canon, nodesList, Sexpr.nodes,
    List.length_append, canonList_append, nodesList_append, List.length_cons, List.length_nil]
  congr 1
  · omega
  · omega

theorem itemWithin_list {children : List Sexpr} : ItemWithin limits (.list children, depth) ↔
    depth < limits.maxDepth ∧ ∀ child ∈ children, ItemWithin limits (child, depth + 1) := by
  simp only [ItemWithin, Sexpr.depth, AtomsWithin, atomsWithinList_iff]
  constructor
  · rintro ⟨hdepth, hatoms⟩
    have hchildren : depthList children ≤ limits.maxDepth - (depth + 1) := by omega
    refine ⟨by omega, fun child hchild => ⟨?_, hatoms child hchild⟩⟩
    have := depthList_le_iff.mp hchildren child hchild
    omega
  · rintro ⟨hdepth, hchildren⟩
    refine ⟨?_, fun child hchild => (hchildren child hchild).2⟩
    have : depthList children ≤ limits.maxDepth - (depth + 1) :=
      depthList_le_iff.mpr fun child hchild => by
        have := (hchildren child hchild).1
        omega
    omega

/-- An atom is measured by its canonical form, unless it is over the limit or too long
to count. -/
theorem measureNode_atom (nodes : ℕ) (bytes : Bytes) :
    (measureNode reserve limits nodes pending depth (.atom bytes) =
        .ok ((canonAtom bytes).length, pending) ∧ bytes.length ≤ limits.maxAtom) ∨
    (∃ e, measureNode reserve limits nodes pending depth (.atom bytes) = .err e) ∧
      (limits.maxAtom < bytes.length ∨ usizeMax < (canonAtom bytes).length) := by
  rw [measureNode, checkedAdd_bind, length_canonAtom]
  by_cases hlen : bytes.length > limits.maxAtom
  · exact Or.inr ⟨⟨_, if_pos hlen⟩, Or.inl hlen⟩
  rw [if_neg hlen]
  by_cases hsum : decimalDigits bytes.length + 1 + bytes.length ≤ usizeMax
  · left
    rw [checkedAdd_eq_some.mpr ⟨hsum, rfl⟩, Outcome.okOr_some, Outcome.ok_bind]
    exact ⟨rfl, Nat.le_of_not_lt hlen⟩
  · right
    have hover : usizeMax < decimalDigits bytes.length + 1 + bytes.length := Nat.lt_of_not_le hsum
    rw [checkedAdd_eq_none.mpr hover, Outcome.okOr_none, Outcome.err_bind]
    exact ⟨⟨_, rfl⟩, Or.inr hover⟩

/-- A list counts its two parentheses and puts its children on the stack, unless it is
too deep or has too many of them. -/
theorem measureNode_list (hreserve : ∀ n m, reserve n m = true) (nodes : ℕ) (children : List Sexpr) :
    (measureNode reserve limits nodes pending depth (.list children) =
        .ok (2, children.map (·, depth + 1) ++ pending) ∧ depth < limits.maxDepth) ∨
    (∃ e, measureNode reserve limits nodes pending depth (.list children) = .err e) ∧
      (limits.maxDepth ≤ depth ∨ limits.maxNodes < nodes + pending.length + children.length) := by
  have hmax := limits.nodes_usize
  rw [measureNode, checkedAdd_bind]
  by_cases hdeep : depth ≥ limits.maxDepth
  · exact Or.inr ⟨⟨_, if_pos hdeep⟩, Or.inl hdeep⟩
  rw [if_neg hdeep]
  by_cases hcount : nodes + pending.length + children.length ≤ limits.maxNodes
  · left
    rw [checkedAdd_eq_some.mpr ⟨by omega, rfl⟩, Outcome.okOr_some, Outcome.ok_bind,
      if_neg (Nat.not_lt.mpr hcount), if_pos (hreserve _ _)]
    exact ⟨rfl, Nat.lt_of_not_le hdeep⟩
  · right
    refine ⟨?_, Or.inr (Nat.lt_of_not_le hcount)⟩
    cases hadd : checkedAdd usizeMax (nodes + pending.length) children.length with
    | none => exact ⟨.lengthOverflow, rfl⟩
    | some count =>
        obtain ⟨-, rfl⟩ := checkedAdd_eq_some.mp hadd
        rw [Outcome.okOr_some, Outcome.ok_bind, if_pos (Nat.lt_of_not_le hcount)]
        exact ⟨.nodeLimit, rfl⟩

/-- The match of a round, on success: the bytes of the node, and its children on the
stack; and a failure only when the whole tree does not fit. -/
theorem measureNode_spec (hreserve : ∀ n m, reserve n m = true) (value : Sexpr)
    (hdepths : ∀ item ∈ (value, depth) :: pending, item.2 ≤ limits.maxDepth) :
    (∃ added pending', measureNode reserve limits (layout.nodes + 1) pending depth value =
        .ok (added, pending') ∧
      Continues limits layout ((value, depth) :: pending)
        ⟨layout.bytes + added, layout.nodes + 1⟩ pending') ∨
    (∃ e, measureNode reserve limits (layout.nodes + 1) pending depth value = .err e) ∧
      ¬ FitsWithin limits layout ((value, depth) :: pending) := by
  have hinput := limits.input_usize
  have hpending : ∀ item ∈ pending, item.2 ≤ limits.maxDepth := fun item hitem =>
    hdepths item (List.mem_cons_of_mem _ hitem)
  cases value with
  | atom bytes =>
      rcases @measureNode_atom reserve limits pending depth (layout.nodes + 1) bytes with
        ⟨hrun, hlen⟩ | ⟨hstop, hbig⟩
      · left
        refine ⟨_, _, hrun, ?_, rfl, ?_, hpending⟩
        · rw [total_atom]
          rfl
        · have hself : ItemWithin limits (.atom bytes, depth) :=
            ⟨hdepths _ List.mem_cons_self, by simpa [AtomsWithin] using hlen⟩
          simp [hself]
      · refine Or.inr ⟨hstop, fun hfits => ?_⟩
        rcases hbig with hlong | hover
        · have hwithin : bytes.length ≤ limits.maxAtom := (hfits.items _ List.mem_cons_self).2
          omega
        · have hbytes := hfits.bytes
          rw [total_atom] at hbytes
          simp only at hbytes
          omega
  | list children =>
      rcases @measureNode_list reserve limits pending depth hreserve (layout.nodes + 1) children with
        ⟨hrun, hshallow⟩ | ⟨hstop, hbig⟩
      · left
        refine ⟨_, _, hrun, ?_, rfl, ?_, ?_⟩
        · rw [total_list, Layout.total, map_fst_children]
        · rw [List.forall_mem_cons, itemWithin_list, List.forall_mem_append]
          simp only [List.forall_mem_map]
          simp [hshallow]
        · intro item hitem
          rcases List.mem_append.mp hitem with hchild | hrest
          · obtain ⟨child, -, rfl⟩ := List.mem_map.mp hchild
            exact hshallow
          · exact hpending item hrest
      · refine Or.inr ⟨hstop, fun hfits => ?_⟩
        rcases hbig with hdeep | hmany
        · have hwithin := (itemWithin_list.mp (hfits.items _ List.mem_cons_self)).1
          omega
        · -- every tree on the stack has a node of its own
          have hlower := length_le_nodesList (children ++ pending.map Prod.fst)
          rw [List.length_append, List.length_map] at hlower
          have hnodes := hfits.nodes
          rw [total_list] at hnodes
          simp only at hnodes
          omega

/-- One round goes on, or the tree does not fit. -/
theorem measureRound_spec (hreserve : ∀ n m, reserve n m = true) (value : Sexpr)
    (hdepths : ∀ item ∈ (value, depth) :: pending, item.2 ≤ limits.maxDepth) :
    (∃ layout' pending', measureRound reserve limits value depth pending layout =
        .ok (layout', pending') ∧ layout'.nodes ≤ limits.maxNodes ∧
      layout'.bytes ≤ limits.maxInput ∧
      Continues limits layout ((value, depth) :: pending) layout' pending') ∨
    (∃ e, measureRound reserve limits value depth pending layout = .err e) ∧
      ¬ FitsWithin limits layout ((value, depth) :: pending) := by
  have hinput := limits.input_usize
  have hmax := limits.nodes_usize
  by_cases hfull : layout.nodes ≥ limits.maxNodes
  · -- there is no room for the node itself
    right
    refine ⟨⟨.nodeLimit, if_pos hfull⟩, fun hfits => ?_⟩
    have hnodes := hfits.nodes
    have hpos := nodes_pos value
    simp only [Layout.total, List.map_cons, nodesList] at hnodes
    omega
  have hcount : (Outcome.index (checkedAdd usizeMax layout.nodes 1) : Outcome EncodeError ℕ) =
      .ok (layout.nodes + 1) := by
    rw [checkedAdd_eq_some.mpr ⟨by omega, rfl⟩, Outcome.index_some]
  rw [measureRound, if_neg hfull, hcount, Outcome.ok_bind]
  rcases @measureNode_spec reserve limits layout pending depth hreserve value hdepths with
    ⟨added, pending', hnode, hgoes⟩ | ⟨⟨e, hnode⟩, hnot⟩
  · rw [hnode, Outcome.ok_bind]
    have htotal := congrArg Layout.bytes hgoes.total
    -- what this round adds is part of the total, so exceeding here is exceeding there
    have hgrows : layout.bytes + added ≤ (layout.total ((value, depth) :: pending)).bytes := by
      rw [← htotal]
      exact Nat.le_add_right _ _
    by_cases hsize : layout.bytes + added ≤ limits.maxInput
    · left
      refine ⟨⟨layout.bytes + added, layout.nodes + 1⟩, pending', ?_, Nat.lt_of_not_le hfull,
        hsize, hgoes⟩
      exact Outcome.checkedSum_le hinput hsize
    · right
      refine ⟨?_, fun hfits => hsize (Nat.le_trans hgrows hfits.bytes)⟩
      rcases Outcome.checkedSum_gt (Nat.lt_of_not_le hsize) with hstop | hstop
      · exact ⟨.lengthOverflow, hstop⟩
      · exact ⟨.sizeLimit, hstop⟩
  · right
    rw [hnode, Outcome.err_bind]
    exact ⟨⟨e, rfl⟩, hnot⟩

/-- **The measuring loop.** It returns the totals exactly when everything fits; the
early test of the node count refuses no tree that does. -/
theorem measureLoop_spec (hreserve : ∀ n m, reserve n m = true) {fuel : ℕ}
    {stack : List (Sexpr × ℕ)} (hfuel : limits.maxNodes < layout.nodes + fuel)
    (hnodes : layout.nodes ≤ limits.maxNodes) (hbytes : layout.bytes ≤ limits.maxInput)
    (hdepths : ∀ item ∈ stack, item.2 ≤ limits.maxDepth) :
    (FitsWithin limits layout stack ∧
      measureLoop reserve limits fuel stack layout = .ok (layout.total stack)) ∨
    (∃ e, measureLoop reserve limits fuel stack layout = .err e) ∧
      ¬ FitsWithin limits layout stack := by
  induction fuel generalizing stack layout with
  | zero => omega
  | succ fuel ih =>
      cases stack with
      | nil =>
          left
          exact ⟨⟨by simpa [Layout.total, nodesList] using hnodes,
            by simpa [Layout.total, canonList] using hbytes, by simp⟩, rfl⟩
      | cons item pending =>
          obtain ⟨value, depth⟩ := item
          rw [measureLoop]
          rcases @measureRound_spec reserve limits layout pending depth hreserve value hdepths with
            ⟨layout', pending', hround, hnodes', hbytes', hgoes⟩ | ⟨⟨e, hround⟩, hnot⟩
          · have hsame : FitsWithin limits layout' pending' ↔
                FitsWithin limits layout ((value, depth) :: pending) := by
              constructor
              · rintro ⟨hn, hb, hi⟩
                exact ⟨hgoes.total ▸ hn, hgoes.total ▸ hb, hgoes.items.mp hi⟩
              · rintro ⟨hn, hb, hi⟩
                exact ⟨hgoes.total ▸ hn, hgoes.total ▸ hb, hgoes.items.mpr hi⟩
            -- the totals are an invariant of the round
            have hstep := hgoes.nodes
            rw [hround, Outcome.ok_bind, ← hsame, ← hgoes.total]
            exact ih (by omega) hnodes' hbytes' hgoes.depths
          · right
            rw [hround, Outcome.err_bind]
            exact ⟨⟨e, rfl⟩, hnot⟩

/-- `measure` returns the size and the node count of a tree within the limits, and
fails on every other. -/
theorem measure_spec (hreserve : ∀ n m, reserve n m = true) (value : Sexpr) :
    (limits.Admits value ∧ value.canon.length ≤ limits.maxInput ∧
      measure reserve limits value = .ok ⟨value.canon.length, value.nodes⟩) ∨
    (∃ e, measure reserve limits value = .err e) ∧
      ¬ (limits.Admits value ∧ value.canon.length ≤ limits.maxInput) := by
  have htotal : (⟨0, 0⟩ : Layout).total [(value, 0)] = ⟨value.canon.length, value.nodes⟩ := by
    simp [Layout.total, canonList, nodesList]
  have hfits : FitsWithin limits ⟨0, 0⟩ [(value, 0)] ↔
      limits.Admits value ∧ value.canon.length ≤ limits.maxInput := by
    constructor
    · rintro ⟨hnodes, hbytes, hitems⟩
      rw [htotal] at hnodes hbytes
      have hitem := hitems _ List.mem_cons_self
      exact ⟨⟨hitem.2, hnodes, by simpa [ItemWithin] using hitem.1⟩, hbytes⟩
    · rintro ⟨⟨hatoms, hnodes, hdepth⟩, hbytes⟩
      refine ⟨by rwa [htotal], by rwa [htotal], fun item hitem => ?_⟩
      rw [List.mem_singleton.mp hitem]
      exact ⟨by simpa using hdepth, hatoms⟩
  rw [measure, if_pos (hreserve _ _), ← hfits, ← htotal]
  rcases @measureLoop_spec reserve limits ⟨0, 0⟩ hreserve (limits.maxNodes + 2) [(value, 0)]
    (by simp) (Nat.zero_le _) (Nat.zero_le _) (by simp) with ⟨h, hrun⟩ | hrefused
  · exact Or.inl ⟨(hfits.mp h).1, (hfits.mp h).2, hrun⟩
  · exact Or.inr hrefused

end Measure

/-! ### The writing loop -/

/-- What an entry of the stack will write, and the rounds it takes. -/
def Pending.bytes : Pending → Bytes
  | .value v => v.canon
  | .closeList => [closeParen]

def Pending.rounds : Pending → ℕ
  | .value v => Assuan.rounds v
  | .closeList => 1

def Pending.AtomsWithin (max : ℕ) : Pending → Prop
  | .value v => v.AtomsWithin max
  | .closeList => True

mutual

theorem rounds_le_nodes (v : Sexpr) : rounds v ≤ 2 * v.nodes := by
  cases v with
  | atom bytes =>
      simp only [rounds, Sexpr.nodes]
      omega
  | list children =>
      have := roundsList_le_nodes children
      simp only [rounds, Sexpr.nodes]
      omega

theorem roundsList_le_nodes (children : List Sexpr) :
    roundsList children ≤ 2 * nodesList children := by
  cases children with
  | nil => exact Nat.zero_le _
  | cons child children =>
      have hchild := rounds_le_nodes child
      have hrest := roundsList_le_nodes children
      simp only [roundsList, nodesList]
      omega

end

theorem flatten_values (children : List Sexpr) :
    ((children.map Pending.value).map Pending.bytes).flatten = canonList children := by
  induction children with
  | nil => rfl
  | cons child children ih =>
      rw [List.map_cons, List.map_cons, List.flatten_cons, ih]
      rfl

theorem sum_rounds_values (children : List Sexpr) :
    ((children.map Pending.value).map Pending.rounds).sum = roundsList children := by
  induction children with
  | nil => rfl
  | cons child children ih =>
      rw [List.map_cons, List.map_cons, List.sum_cons, ih]
      rfl

theorem decimal_length_of_lt {n : ℕ} (h : n ≤ usizeMax) : (decimal n).length ≤ 40 :=
  Nat.le_trans (@decimal_length_le 19 n (Nat.lt_of_le_of_lt h (by decide))) (by decide)

/-- The loop appends the encodings of the stack, from its top. -/
theorem writeLoop_eq {max : ℕ} (hmax : max ≤ usizeMax) {fuel : ℕ} {stack : List Pending}
    (output : Bytes) (hfuel : (stack.map Pending.rounds).sum < fuel)
    (hatoms : ∀ item ∈ stack, item.AtomsWithin max) :
    writeLoop fuel stack output = .ok (output ++ (stack.map Pending.bytes).flatten) := by
  induction fuel generalizing stack output with
  | zero => omega
  | succ fuel ih =>
      cases stack with
      | nil => simp [writeLoop]
      | cons item pending =>
          rw [List.forall_mem_cons] at hatoms
          obtain ⟨hitem, hpending⟩ := hatoms
          rw [List.map_cons, List.sum_cons] at hfuel
          rw [List.map_cons, List.flatten_cons]
          cases item with
          -- the parenthesis that was pushed below the children
          | closeList =>
              rw [writeLoop, ih _ (by simp only [Pending.rounds] at hfuel; omega) hpending,
                List.append_assoc]
              rfl
          | value v =>
              cases v with
              | atom bytes =>
                  have hlen : bytes.length ≤ usizeMax := Nat.le_trans hitem hmax
                  rw [writeLoop, writeLength_eq (decimal_length_of_lt hlen), Outcome.ok_bind,
                    ih _ (by simp only [Pending.rounds, rounds] at hfuel; omega) hpending]
                  simp [Pending.bytes, canon, canonAtom]
              | list children =>
                  have hchildren : AtomsWithinList max children := hitem
                  rw [writeLoop, ih]
                  · rw [List.map_append, List.flatten_append, flatten_values]
                    simp [Pending.bytes, canon]
                  · simp only [Pending.rounds, rounds] at hfuel
                    rw [List.map_append, List.sum_append, sum_rounds_values, List.map_cons,
                      List.sum_cons]
                    simp only [Pending.rounds]
                    omega
                  · rw [List.forall_mem_append, List.forall_mem_cons, List.forall_mem_map]
                    exact ⟨atomsWithinList_iff.mp hchildren, trivial, hpending⟩

/-! ## §5  The writer -/

section Exact

variable {reserve : ℕ → ℕ → Bool}

/-- The limits of `write_canonical` on a tree and the output it is appended to. -/
structure Writable (v : Sexpr) (out : Bytes) : Prop where
  nodes : v.nodes ≤ 65536
  depth : v.depth ≤ 64
  atoms : v.AtomsWithin (16 * 1024 * 1024)
  size : out.length + v.canon.length ≤ 16 * 1024 * 1024

theorem prepareCanonical_spec (hreserve : ∀ n m, reserve n m = true) (v : Sexpr) (out : Bytes) :
    (Writable v out ∧ prepareCanonical reserve v out =
      .ok (⟨v.canon.length, v.nodes⟩, out.length + v.canon.length)) ∨
    (∃ e, prepareCanonical reserve v out = .err e) ∧ ¬ Writable v out := by
  have hinput : ParseLimits.default.maxInput = 16 * 1024 * 1024 := rfl
  have husize : 16 * 1024 * 1024 ≤ usizeMax := by decide
  unfold prepareCanonical
  rcases @measure_spec reserve .default hreserve v with
    ⟨hadmits, hlen, hrun⟩ | ⟨⟨e, hrun⟩, hnot⟩
  · rw [hrun, Outcome.ok_bind]
    by_cases hsize : out.length + v.canon.length ≤ 16 * 1024 * 1024
    · left
      refine ⟨⟨hadmits.nodes, hadmits.depth, hadmits.atoms, hsize⟩, ?_⟩
      rw [hinput, Outcome.checkedSum_le husize hsize]
      simp [hreserve]
    · right
      refine ⟨?_, fun h => hsize h.size⟩
      rcases Outcome.checkedSum_gt (Nat.lt_of_not_le hsize) with hstop | hstop
      · exact ⟨.lengthOverflow, hstop⟩
      · exact ⟨.sizeLimit, hstop⟩
  · right
    rw [hrun, Outcome.err_bind]
    refine ⟨⟨e, rfl⟩, fun h => hnot ⟨⟨h.atoms, h.nodes, h.depth⟩, ?_⟩⟩
    have := h.size
    rw [hinput]
    omega

/-- After the fallible part the encoding is appended. -/
theorem writeCanonical_prepared {v : Sexpr} {out : Bytes}
    (hatoms : v.AtomsWithin (16 * 1024 * 1024))
    (hrun : prepareCanonical reserve v out =
      .ok (⟨v.canon.length, v.nodes⟩, out.length + v.canon.length)) :
    writeCanonical reserve v out = (.ok (), out ++ v.canon) := by
  have hrounds := rounds_le_nodes v
  have hloop := @writeLoop_eq (16 * 1024 * 1024) (by decide) (2 * v.nodes + 1) [.value v] out
    (by simpa [Pending.rounds] using Nat.lt_succ_of_le hrounds)
    (by simpa [Pending.AtomsWithin] using hatoms)
  unfold writeCanonical
  simp only [hrun, hloop, List.map_singleton, List.flatten_singleton, Pending.bytes]
  rw [if_pos (by rw [List.length_append])]

/-- The encoding is appended, or nothing happens. -/
theorem writeCanonical_spec (hreserve : ∀ n m, reserve n m = true) (v : Sexpr) (out : Bytes) :
    (Writable v out ∧ writeCanonical reserve v out = (.ok (), out ++ v.canon)) ∨
    (∃ e, writeCanonical reserve v out = (.err e, out)) ∧ ¬ Writable v out := by
  rcases prepareCanonical_spec hreserve v out with ⟨hfits, hrun⟩ | ⟨⟨e, hrun⟩, hnot⟩
  · exact Or.inl ⟨hfits, writeCanonical_prepared hfits.atoms hrun⟩
  · right
    unfold writeCanonical
    simp only [hrun]
    exact ⟨⟨e, rfl⟩, hnot⟩

theorem toCanonical_eq_ok (hreserve : ∀ n m, reserve n m = true) {v : Sexpr} {bytes : Bytes} :
    toCanonical reserve v = .ok bytes ↔ Writable v [] ∧ bytes = v.canon := by
  unfold toCanonical
  rcases writeCanonical_spec hreserve v [] with ⟨hfits, hrun⟩ | ⟨⟨e, hrun⟩, hnot⟩
  · simp [hrun, hfits, eq_comm]
  · simp [hrun, hnot]

/-- A failed call appends nothing, whichever of its steps failed. -/
theorem writeCanonical_err {v : Sexpr} {out : Bytes} {e : EncodeError}
    (h : (writeCanonical reserve v out).1 = .err e) : (writeCanonical reserve v out).2 = out := by
  unfold writeCanonical at h ⊢
  split at h
  · split at h
    · split at h
      · exact absurd h (by simp)
      · exact absurd h (by simp)
    · exact absurd h (by simp)
  · rfl
  · rfl
  · rfl

/-- **The canonical writer is exact, bounded and atomic.** Trees within the limits are
appended in their reference encoding, every other is refused with the output as it
was, as on a failed reservation. What is written from an empty buffer parses back to the tree, and what is parsed
under limits no larger than the default is written back as it was read. -/
theorem writeCanonical_exact (hreserve : ∀ n m, reserve n m = true)
    {parserReserve : ℕ → ℕ → Bool} (hparser : ∀ p n, parserReserve p n = true)
    (v : Sexpr) (out : Bytes) :
    (writeCanonical reserve v out = (.ok (), out ++ v.canon) ↔
      v.nodes ≤ 65536 ∧ v.depth ≤ 64 ∧ v.AtomsWithin (16 * 1024 * 1024) ∧
        out.length + v.canon.length ≤ 16 * 1024 * 1024) ∧
    (¬ (v.nodes ≤ 65536 ∧ v.depth ≤ 64 ∧ v.AtomsWithin (16 * 1024 * 1024) ∧
        out.length + v.canon.length ≤ 16 * 1024 * 1024) →
      ∃ e, writeCanonical reserve v out = (.err e, out)) ∧
    (∀ (other : ℕ → ℕ → Bool) e, (writeCanonical other v out).1 = .err e →
      (writeCanonical other v out).2 = out) ∧
    (∀ bytes, toCanonical reserve v = .ok bytes →
      parseComplete parserReserve bytes .default = .ok v) ∧
    (∀ (limits : ParseLimits) (input : Bytes), limits.maxInput ≤ ParseLimits.default.maxInput →
      limits.maxAtom ≤ ParseLimits.default.maxAtom →
      limits.maxNodes ≤ ParseLimits.default.maxNodes →
      limits.maxDepth ≤ ParseLimits.default.maxDepth →
      ∀ parsed, parseComplete parserReserve input limits = .ok parsed →
        toCanonical reserve parsed = .ok input) := by
  have hwritable : (v.nodes ≤ 65536 ∧ v.depth ≤ 64 ∧ v.AtomsWithin (16 * 1024 * 1024) ∧
      out.length + v.canon.length ≤ 16 * 1024 * 1024) ↔ Writable v out := by
    constructor
    · rintro ⟨hnodes, hdepth, hatoms, hsize⟩
      exact ⟨hnodes, hdepth, hatoms, hsize⟩
    · rintro ⟨hnodes, hdepth, hatoms, hsize⟩
      exact ⟨hnodes, hdepth, hatoms, hsize⟩
  rw [hwritable]
  refine ⟨?_, ?_, fun other e => writeCanonical_err, ?_, ?_⟩
  · rcases writeCanonical_spec hreserve v out with ⟨hfits, hrun⟩ | ⟨⟨e, hrun⟩, hnot⟩
    · simp [hrun, hfits]
    · simp [hrun, hnot]
  · intro hnot
    rcases writeCanonical_spec hreserve v out with ⟨hfits, -⟩ | ⟨hrefused, -⟩
    · exact absurd hfits hnot
    · exact hrefused
  · intro bytes hbytes
    obtain ⟨hfits, rfl⟩ := (toCanonical_eq_ok hreserve).mp hbytes
    refine ((parseComplete_iff_canon hparser _ _).1 v).mpr ⟨rfl, ?_, hfits.atoms, hfits.nodes,
      hfits.depth⟩
    have hsize := hfits.size
    rw [List.length_nil, Nat.zero_add] at hsize
    exact hsize
  · intro limits input hinput hatom hnodes hdepth parsed hparsed
    obtain ⟨rfl, hlen, hatoms, hcount, hnested⟩ :=
      ((parseComplete_iff_canon hparser input limits).1 parsed).mp hparsed
    refine (toCanonical_eq_ok hreserve).mpr ⟨⟨Nat.le_trans hcount hnodes,
      Nat.le_trans hnested hdepth, atomsWithin_mono hatom hatoms, ?_⟩, rfl⟩
    rw [List.length_nil, Nat.zero_add]
    exact Nat.le_trans hlen hinput

/-- `(1:a0:)` is written after `x`. -/
theorem writeCanonical_exact_pair :
    writeCanonical (fun _ _ => true) (.list [.atom [97], .atom []]) [120] =
      (.ok (), [120, 40, 49, 58, 97, 48, 58, 41]) := by
  have hcanon : Sexpr.canon (.list [.atom [97], .atom []]) = [40, 49, 58, 97, 48, 58, 41] := by
    have h1 : decimal 1 = [49] := decimal_lt (by decide)
    have h0 : decimal 0 = [48] := decimal_lt (by decide)
    simp only [canon, canonList, canonAtom, List.length_cons, List.length_nil, h1, h0]
    rfl
  have hatoms : Sexpr.AtomsWithin (16 * 1024 * 1024) (.list [.atom [97], .atom []]) := by
    simp [AtomsWithin, AtomsWithinList]
  have hrun := (writeCanonical_exact (fun _ _ => rfl) (fun _ _ => rfl)
    (.list [.atom [97], .atom []]) [120]).1.mpr
      ⟨by decide, by decide, hatoms, by rw [hcanon]; decide⟩
  rw [hrun, hcanon]
  rfl

end Exact

end Assuan
