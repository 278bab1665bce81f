import Assuan.Foundation.Runs
import Assuan.Sexpr.Writer

/-!
# What the writer reserves

`write_canonical` reserves room for as many stack entries as the tree has nodes,
and for the bytes that `measure` has counted. Here its loop runs statement by
statement. Every entry of the stack stands for nodes that are still to be visited,
or for a list that has been opened, and each of those is counted once; so neither
vector outgrows its reservation between any two statements.
-/

namespace Assuan

open Sexpr

/-! ## §1  The loop, statement by statement -/

/-- A statement of the loop body. A `push` on the output is an `extend` by one byte,
and the `extend` of the stack is a `push` for each child. -/
inductive Statement : Type where
  | length (value : ℕ)
  | extend (bytes : Bytes)
  | push (item : Pending)

/-- The arm of the `match` for an item. -/
def Pending.statements : Pending → List Statement
  | .value (.atom bytes) => [.length bytes.length, .extend [colon], .extend bytes]
  | .value (.list children) =>
      .extend [openParen] :: .push .closeList :: (children.map Pending.value).reverse.map .push
  | .closeList => [.extend [closeParen]]

/-- The two vectors, and what is left of the loop body. The top of the stack is at
the head. -/
structure Writing : Type where
  body : List Statement
  pending : List Pending
  output : Bytes

namespace Writing

/-- The next statement, or `pending.pop()` at the head of the loop. After the loop
nothing happens. -/
def step (s : Writing) : Outcome EncodeError Writing :=
  match s.body with
  | .length value :: body => do
      let output ← writeLength value s.output
      .ok ⟨body, s.pending, output⟩
  | .extend bytes :: body => .ok ⟨body, s.pending, s.output ++ bytes⟩
  | .push item :: body => .ok ⟨body, item :: s.pending, s.output⟩
  | [] =>
      match s.pending with
      | item :: pending => .ok ⟨item.statements, pending, s.output⟩
      | [] => .ok s

/-- The loop has been left. -/
def Done (s : Writing) : Prop := s.body = [] ∧ s.pending = []

end Writing

/-! ## §2  The budget -/

/-- The entries that an item can account for on the stack: one for each node that is
still to be visited, and one for an open list. -/
def Pending.weight : Pending → ℕ
  | .value v => v.nodes
  | .closeList => 1

def Statement.weight : Statement → ℕ
  | .push item => item.weight
  | _ => 0

/-- The bytes that a statement leads to. -/
def Statement.bytes : Statement → Bytes
  | .length value => decimal value
  | .extend bytes => bytes
  | .push item => item.bytes

/-- The lengths of the atoms are lengths of slices. -/
def Statement.Sized : Statement → Prop
  | .length value => value ≤ usizeMax
  | .extend _ => True
  | .push item => item.AtomsWithin usizeMax

theorem Pending.weight_pos (item : Pending) : 1 ≤ item.weight := by
  cases item with
  | value v => exact nodes_pos v
  | closeList => exact Nat.le_refl 1

theorem sum_weight_values (children : List Sexpr) :
    ((children.map Pending.value).map Pending.weight).sum = nodesList children := by
  induction children with
  | nil => rfl
  | cons child children ih =>
      rw [List.map_cons, List.map_cons, List.sum_cons, ih]
      rfl

theorem length_le_weight (stack : List Pending) :
    stack.length ≤ (stack.map Pending.weight).sum := by
  have hle := List.length_le_sum_of_one_le (stack.map Pending.weight) (by
    intro w hw
    obtain ⟨item, -, rfl⟩ := List.mem_map.mp hw
    exact item.weight_pos)
  rwa [List.length_map] at hle

/-! ### The body for an item -/

theorem weight_pushes (items : List Pending) :
    ((items.reverse.map Statement.push).map Statement.weight).sum = (items.map Pending.weight).sum := by
  rw [List.map_map, List.map_reverse, List.sum_reverse]
  rfl

theorem bytes_pushes (items : List Pending) :
    ((items.reverse.map Statement.push).map Statement.bytes).flatten.length =
      (items.map Pending.bytes).flatten.length := by
  rw [List.length_flatten, List.length_flatten, List.map_map, List.map_map, List.map_reverse,
    List.sum_reverse, List.map_map]
  rfl

/-- The body for a list pushes its marker and its children, which weigh as much as
the list. -/
theorem statements_weight (item : Pending) :
    (item.statements.map Statement.weight).sum ≤ item.weight := by
  cases item with
  | closeList => exact Nat.zero_le 1
  | value v =>
      cases v with
      | atom bytes => exact Nat.zero_le 1
      | list children =>
          rw [Pending.statements, List.map_cons, List.map_cons, List.sum_cons, List.sum_cons,
            weight_pushes, sum_weight_values]
          simp only [Statement.weight, Pending.weight, Sexpr.nodes]
          omega

theorem statements_bytes (item : Pending) :
    (item.statements.map Statement.bytes).flatten.length = item.bytes.length := by
  cases item with
  | closeList => rfl
  | value v =>
      cases v with
      | atom bytes =>
          simp only [Pending.statements, Pending.bytes, canon, canonAtom, List.map_cons, List.map_nil,
            Statement.bytes, List.flatten_cons, List.flatten_nil, List.append_nil, List.length_append,
            List.length_cons, List.length_nil]
          omega
      | list children =>
          rw [Pending.statements, List.map_cons, List.map_cons, List.flatten_cons, List.flatten_cons,
            List.length_append, List.length_append, bytes_pushes, flatten_values]
          simp only [Statement.bytes, Pending.bytes, canon, List.length_cons, List.length_append,
            List.length_nil]
          omega

theorem statements_sized {item : Pending} (h : item.AtomsWithin usizeMax) :
    ∀ statement ∈ item.statements, statement.Sized := by
  cases item with
  | closeList => simp [Pending.statements, Statement.Sized]
  | value v =>
      cases v with
      | atom bytes =>
          have hlen : bytes.length ≤ usizeMax := h
          simp [Pending.statements, Statement.Sized, hlen]
      | list children =>
          have hchildren : AtomsWithinList usizeMax children := h
          intro statement hmem
          rcases List.mem_cons.mp hmem with rfl | hmem
          · trivial
          rcases List.mem_cons.mp hmem with rfl | hmem
          · trivial
          obtain ⟨item, hitem, rfl⟩ := List.mem_map.mp hmem
          obtain ⟨child, hchild, rfl⟩ := List.mem_map.mp (List.mem_reverse.mp hitem)
          exact atomsWithinList_iff.mp hchildren child hchild

/-- Nothing that is still to come exceeds what was measured. -/
structure Budget (nodes total : ℕ) (s : Writing) : Prop where
  weight : (s.body.map Statement.weight).sum + (s.pending.map Pending.weight).sum ≤ nodes
  size : s.output.length + (s.body.map Statement.bytes).flatten.length +
    (s.pending.map Pending.bytes).flatten.length = total
  body : ∀ statement ∈ s.body, statement.Sized
  pending : ∀ item ∈ s.pending, item.AtomsWithin usizeMax

section Budgets

variable {nodes total : ℕ} {body : List Statement} {pending : List Pending} {output : Bytes}

theorem step_length {value : ℕ} (h : value ≤ usizeMax) :
    Writing.step ⟨.length value :: body, pending, output⟩ =
      .ok ⟨body, pending, output ++ decimal value⟩ := by
  have hwrite := writeLength_eq (decimal_length_of_lt h) output
  simp only [Writing.step, hwrite, Outcome.ok_bind]

/-- A pop replaces an item by its statements. -/
theorem Budget.pop {item : Pending} (h : Budget nodes total ⟨[], item :: pending, output⟩) :
    Budget nodes total ⟨item.statements, pending, output⟩ := by
  obtain ⟨hweight, hsize, -, hpending⟩ := h
  rw [List.forall_mem_cons] at hpending
  have hless := statements_weight item
  have hsame := statements_bytes item
  simp only [List.map_cons, List.map_nil, List.sum_cons, List.sum_nil, List.flatten_cons,
    List.flatten_nil, List.length_append, List.length_nil] at hweight hsize
  refine ⟨?_, ?_, statements_sized hpending.1, hpending.2⟩
  · show (item.statements.map Statement.weight).sum + (pending.map Pending.weight).sum ≤ nodes
    omega
  · show output.length + (item.statements.map Statement.bytes).flatten.length +
      (pending.map Pending.bytes).flatten.length = total
    omega

/-- Output moves from a statement into the vector. -/
theorem Budget.append {statement : Statement}
    (h : Budget nodes total ⟨statement :: body, pending, output⟩) :
    Budget nodes total ⟨body, pending, output ++ statement.bytes⟩ := by
  obtain ⟨hweight, hsize, hbody, hpending⟩ := h
  simp only [List.map_cons, List.sum_cons, List.flatten_cons, List.length_append] at hweight hsize
  refine ⟨?_, ?_, (List.forall_mem_cons.mp hbody).2, hpending⟩
  · show (body.map Statement.weight).sum + (pending.map Pending.weight).sum ≤ nodes
    omega
  · show (output ++ statement.bytes).length + (body.map Statement.bytes).flatten.length +
      (pending.map Pending.bytes).flatten.length = total
    rw [List.length_append]
    omega

theorem Budget.push {item : Pending} (h : Budget nodes total ⟨.push item :: body, pending, output⟩) :
    Budget nodes total ⟨body, item :: pending, output⟩ := by
  obtain ⟨hweight, hsize, hbody, hpending⟩ := h
  obtain ⟨hitem, hbody⟩ := List.forall_mem_cons.mp hbody
  simp only [List.map_cons, List.sum_cons, List.flatten_cons, List.length_append, Statement.weight,
    Statement.bytes] at hweight hsize
  refine ⟨?_, ?_, hbody, List.forall_mem_cons.mpr ⟨hitem, hpending⟩⟩
  · simp only [List.map_cons, List.sum_cons]
    omega
  · simp only [List.map_cons, List.flatten_cons, List.length_append]
    omega

/-- No statement fails, and each keeps the budget. -/
theorem Budget.step {s : Writing} (h : Budget nodes total s) :
    ∃ s', s.step = .ok s' ∧ Budget nodes total s' := by
  obtain ⟨body, pending, output⟩ := s
  cases body with
  | nil =>
      cases pending with
      | nil => exact ⟨_, rfl, h⟩
      | cons item pending => exact ⟨_, rfl, h.pop⟩
  | cons statement body =>
      cases statement with
      | length value => exact ⟨_, step_length (h.body _ List.mem_cons_self), h.append⟩
      | extend bytes => exact ⟨_, rfl, h.append⟩
      | push item => exact ⟨_, rfl, h.push⟩

/-- Within the budget both vectors stay in their reservations. -/
theorem Budget.lengths {s : Writing} (h : Budget nodes total s) :
    s.pending.length ≤ nodes ∧ s.output.length ≤ total ∧ (s.Done → s.output.length = total) := by
  have hlength := length_le_weight s.pending
  have hweight := h.weight
  have hsize := h.size
  refine ⟨by omega, by omega, ?_⟩
  rintro ⟨hbody, hpending⟩
  rw [hbody, hpending] at hsize
  simpa using hsize

end Budgets

/-! ## §3  The two forms of the loop -/

section Forms

variable {pending : List Pending}

/-- Pushes put their items on the stack, the last one on top. -/
theorem stepTimes_pushes (items : List Pending) (output : Bytes) :
    ∃ n, stepTimes Writing.step n ⟨items.map .push, pending, output⟩ =
      .ok ⟨[], items.reverse ++ pending, output⟩ := by
  induction items generalizing pending with
  | nil => exact ⟨0, rfl⟩
  | cons item items ih =>
      obtain ⟨n, hrun⟩ := @ih (item :: pending)
      refine ⟨n + 1, stepTimes.cons rfl ?_⟩
      rw [hrun, List.reverse_cons, List.append_assoc]
      rfl

/-- What the loop writes is what its statements write. -/
theorem writeLoop_steps {fuel : ℕ} {stack : List Pending} {output written : Bytes}
    (hatoms : ∀ item ∈ stack, item.AtomsWithin usizeMax)
    (h : writeLoop fuel stack output = .ok written) :
    ∃ n, stepTimes Writing.step n ⟨[], stack, output⟩ = .ok ⟨[], [], written⟩ := by
  induction fuel generalizing stack output with
  | zero => exact absurd h (by simp [writeLoop])
  | succ fuel ih =>
      cases stack with
      | nil =>
          obtain rfl := Outcome.ok.inj h
          exact ⟨0, rfl⟩
      | cons item pending =>
          obtain ⟨hitem, hpending⟩ := List.forall_mem_cons.mp hatoms
          cases item with
          | closeList =>
              obtain ⟨n, hrun⟩ := ih hpending h
              exact ⟨n + 2, stepTimes.cons rfl (stepTimes.cons rfl hrun)⟩
          | value v =>
              cases v with
              | atom bytes =>
                  have hlen : bytes.length ≤ usizeMax := hitem
                  rw [writeLoop, writeLength_eq (decimal_length_of_lt hlen), Outcome.ok_bind] at h
                  obtain ⟨n, hrun⟩ := ih hpending h
                  exact ⟨n + 4, stepTimes.cons rfl (stepTimes.cons (step_length hlen)
                    (stepTimes.cons rfl (stepTimes.cons rfl hrun)))⟩
              | list children =>
                  have hchildren : AtomsWithinList usizeMax children := hitem
                  rw [writeLoop] at h
                  obtain ⟨n, hrun⟩ := ih (by
                    rw [List.forall_mem_append, List.forall_mem_cons, List.forall_mem_map]
                    exact ⟨atomsWithinList_iff.mp hchildren, trivial, hpending⟩) h
                  obtain ⟨m, hpushes⟩ := @stepTimes_pushes (.closeList :: pending)
                    (children.map Pending.value).reverse (output ++ [openParen])
                  rw [List.reverse_reverse] at hpushes
                  obtain ⟨k, hall⟩ := stepTimes.trans hpushes hrun
                  exact ⟨k + 3, stepTimes.cons rfl (stepTimes.cons rfl (stepTimes.cons rfl hall))⟩

end Forms

/-! ## §4  Reservations that fail -/

section Refusals

variable {reserve : ℕ → ℕ → Bool} {limits : ParseLimits}

/-- `o` is an error, or what it is when every reservation succeeds. -/
def Agrees {α : Type} (o full : Outcome EncodeError α) : Prop := (∃ e, o = .err e) ∨ o = full

theorem Agrees.bind {α β : Type} {o full : Outcome EncodeError α} {f g : α → Outcome EncodeError β}
    (h : Agrees o full) (hf : ∀ a, Agrees (f a) (g a)) : Agrees (o >>= f) (full >>= g) := by
  rcases h with ⟨e, rfl⟩ | rfl
  · exact Or.inl ⟨e, rfl⟩
  · cases o with
    | ok a => exact hf a
    | err e => exact Or.inl ⟨e, rfl⟩
    | panic => exact Or.inr rfl
    | dropped => exact Or.inr rfl

theorem agrees_self {α : Type} (o : Outcome EncodeError α) : Agrees o o := Or.inr rfl

theorem measureNode_agrees (nodes : ℕ) (pending : List (Sexpr × ℕ)) (depth : ℕ) (value : Sexpr) :
    Agrees (measureNode reserve limits nodes pending depth value)
      (measureNode (fun _ _ => true) limits nodes pending depth value) := by
  cases value with
  | atom bytes => exact agrees_self _
  | list children =>
      rw [measureNode, measureNode]
      by_cases hdepth : depth ≥ limits.maxDepth
      · rw [if_pos hdepth, if_pos hdepth]
        exact agrees_self _
      rw [if_neg hdepth, if_neg hdepth]
      apply Agrees.bind (agrees_self _)
      intro minimum
      by_cases hcount : minimum > limits.maxNodes
      · rw [if_pos hcount, if_pos hcount]
        exact agrees_self _
      rw [if_neg hcount, if_neg hcount]
      by_cases hreserve : reserve pending.length children.length
      · rw [if_pos hreserve]
        exact agrees_self _
      · rw [if_neg hreserve]
        exact Or.inl ⟨_, rfl⟩

theorem measureRound_agrees (value : Sexpr) (depth : ℕ) (pending : List (Sexpr × ℕ))
    (layout : Layout) : Agrees (measureRound reserve limits value depth pending layout)
      (measureRound (fun _ _ => true) limits value depth pending layout) := by
  rw [measureRound, measureRound]
  by_cases hfull : layout.nodes ≥ limits.maxNodes
  · rw [if_pos hfull, if_pos hfull]
    exact agrees_self _
  rw [if_neg hfull, if_neg hfull]
  apply Agrees.bind (agrees_self _)
  intro nodes
  apply Agrees.bind (measureNode_agrees nodes pending depth value)
  intro read
  exact agrees_self _

theorem measureLoop_agrees (fuel : ℕ) (stack : List (Sexpr × ℕ)) (layout : Layout) :
    Agrees (measureLoop reserve limits fuel stack layout)
      (measureLoop (fun _ _ => true) limits fuel stack layout) := by
  induction fuel generalizing stack layout with
  | zero => exact agrees_self _
  | succ fuel ih =>
      cases stack with
      | nil => exact agrees_self _
      | cons item pending =>
          obtain ⟨value, depth⟩ := item
          rw [measureLoop, measureLoop]
          apply Agrees.bind (measureRound_agrees value depth pending layout)
          rintro ⟨layout', pending'⟩
          exact ih pending' layout'

theorem measure_agrees (value : Sexpr) :
    Agrees (measure reserve limits value) (measure (fun _ _ => true) limits value) := by
  rw [measure, measure]
  by_cases hreserve : reserve 0 1
  · rw [if_pos hreserve]
    exact measureLoop_agrees _ _ _
  · rw [if_neg hreserve]
    exact Or.inl ⟨_, rfl⟩

/-- What `measure` returns is the size of the tree, whichever reservations it made. -/
theorem measure_cases (value : Sexpr) :
    (∃ e, measure reserve limits value = .err e) ∨
      (limits.Admits value ∧ measure reserve limits value = .ok ⟨value.canon.length, value.nodes⟩) := by
  rcases @measure_agrees reserve limits value with herr | hfull
  · exact Or.inl herr
  rcases @measure_spec (fun _ _ => true) limits (fun _ _ => rfl) value with
    ⟨hadmits, -, hrun⟩ | ⟨⟨e, hrun⟩, -⟩
  · exact Or.inr ⟨hadmits, hfull.trans hrun⟩
  · exact Or.inl ⟨e, hfull.trans hrun⟩

theorem prepareCanonical_cases (v : Sexpr) (out : Bytes) :
    (∃ e, prepareCanonical reserve v out = .err e) ∨
      (ParseLimits.default.Admits v ∧ reserve 0 v.nodes = true ∧
        reserve out.length v.canon.length = true ∧ prepareCanonical reserve v out =
          .ok (⟨v.canon.length, v.nodes⟩, out.length + v.canon.length)) := by
  unfold prepareCanonical
  rcases @measure_cases reserve .default v with ⟨e, hrun⟩ | ⟨hadmits, hrun⟩
  · exact Or.inl ⟨e, by rw [hrun, Outcome.err_bind]⟩
  rw [hrun, Outcome.ok_bind]
  cases hsum : checkedAdd usizeMax out.length v.canon.length with
  | none => exact Or.inl ⟨_, rfl⟩
  | some finalLen =>
      obtain ⟨-, rfl⟩ := checkedAdd_eq_some.mp hsum
      rw [Outcome.okOr_some, Outcome.ok_bind]
      by_cases hsize : out.length + v.canon.length > ParseLimits.default.maxInput
      · exact Or.inl ⟨_, if_pos hsize⟩
      rw [if_neg hsize]
      by_cases hstack : reserve 0 v.nodes = false
      · exact Or.inl ⟨_, if_pos hstack⟩
      rw [if_neg hstack]
      by_cases hbytes : reserve out.length v.canon.length = false
      · exact Or.inl ⟨_, if_pos hbytes⟩
      rw [if_neg hbytes]
      exact Or.inr ⟨hadmits, by simpa using hstack, by simpa using hbytes, rfl⟩

/-- An error comes before the first byte; after both reservations there is none. -/
theorem writeCanonical_cases (v : Sexpr) (out : Bytes) :
    (∃ e, writeCanonical reserve v out = (.err e, out)) ∨
      (reserve 0 v.nodes = true ∧ reserve out.length v.canon.length = true ∧
        writeCanonical reserve v out = (.ok (), out ++ v.canon)) := by
  rcases @prepareCanonical_cases reserve v out with ⟨e, hrun⟩ | ⟨hadmits, hstack, hbytes, hrun⟩
  · left
    unfold writeCanonical
    simp only [hrun]
    exact ⟨e, rfl⟩
  · exact Or.inr ⟨hstack, hbytes, writeCanonical_prepared hadmits.atoms hrun⟩

end Refusals

/-! ## §5  The reservations suffice -/

section Suffices

variable {reserve : ℕ → ℕ → Bool} {limits : ParseLimits} {v : Sexpr} {layout : Layout}

theorem budget_start (out : Bytes) (hatoms : v.AtomsWithin usizeMax) :
    Budget v.nodes (out.length + v.canon.length) ⟨[], [.value v], out⟩ := by
  refine ⟨?_, ?_, by simp, ?_⟩
  · simp [Pending.weight]
  · simp [Pending.bytes]
  · intro item hitem
    rw [List.mem_singleton.mp hitem]
    exact hatoms

/-- **The reservations suffice.** When a tree has been measured, its loop never holds
more entries than the tree has nodes and never more bytes than were measured, after
any number of statements; it ends, with exactly these bytes and with the output of
`writeLoop`. So a call of `write_canonical` either fails with the output as it was, or
has reserved for both vectors all that they will hold, and succeeds. -/
theorem reservations_suffice (hmeasure : measure reserve limits v = .ok layout) (out : Bytes) :
    (∀ n, ∃ s, stepTimes Writing.step n ⟨[], [.value v], out⟩ = .ok s ∧
      s.pending.length ≤ layout.nodes ∧ s.output.length ≤ out.length + layout.bytes ∧
      (s.Done → s.output.length = out.length + layout.bytes)) ∧
    (∃ n s, stepTimes Writing.step n ⟨[], [.value v], out⟩ = .ok s ∧ s.Done ∧
      writeLoop (2 * layout.nodes + 1) [.value v] out = .ok s.output) ∧
    ∀ other, (∃ e, writeCanonical other v out = (.err e, out)) ∨
      (other 0 layout.nodes = true ∧ other out.length layout.bytes = true ∧
        ∃ written, writeCanonical other v out = (.ok (), written) ∧
          written.length = out.length + layout.bytes) := by
  obtain ⟨hadmits, hlayout⟩ : limits.Admits v ∧ layout = ⟨v.canon.length, v.nodes⟩ := by
    rcases @measure_cases reserve limits v with ⟨e, hrun⟩ | ⟨hadmits, hrun⟩
    · rw [hmeasure] at hrun
      exact absurd hrun (by simp)
    · exact ⟨hadmits, Outcome.ok.inj (hmeasure.symm.trans hrun)⟩
  subst hlayout
  have hatoms : v.AtomsWithin usizeMax :=
    atomsWithin_mono (Nat.le_trans limits.atom_le limits.input_usize) hadmits.atoms
  have hstack : ∀ item ∈ [Pending.value v], item.AtomsWithin usizeMax :=
    (budget_start out hatoms).pending
  refine ⟨?_, ?_, ?_⟩
  · intro n
    obtain ⟨s, hrun, hbudget⟩ :=
      stepTimes.invariant (fun _ h => Budget.step h) (budget_start out hatoms) n
    exact ⟨s, hrun, hbudget.lengths⟩
  · have hrounds := rounds_le_nodes v
    have hloop := @writeLoop_eq usizeMax (Nat.le_refl _) (2 * v.nodes + 1) [.value v] out
      (by simpa [Pending.rounds] using Nat.lt_succ_of_le hrounds) hstack
    obtain ⟨n, hrun⟩ := writeLoop_steps hstack hloop
    exact ⟨n, _, hrun, ⟨rfl, rfl⟩, hloop⟩
  · intro other
    rcases @writeCanonical_cases other v out with herr | ⟨hnodes, hbytes, hrun⟩
    · exact Or.inl herr
    · exact Or.inr ⟨hnodes, hbytes, _, hrun, List.length_append⟩

/-- `(()())` after one byte: once both children are on the stack, every reserved entry
is in use. -/
theorem reservations_suffice_pair :
    measure (fun _ _ => true) .default (.list [.list [], .list []]) = .ok ⟨6, 3⟩ ∧
      ∃ s, stepTimes Writing.step 5 ⟨[], [.value (.list [.list [], .list []])], [120]⟩ = .ok s ∧
        s.pending.length = 3 ∧ s.output.length ≤ 1 + 6 := by
  have hmeasure : measure (fun _ _ => true) .default (.list [.list [], .list []]) = .ok ⟨6, 3⟩ := rfl
  obtain ⟨s, hrun, -, houtput, -⟩ := (reservations_suffice hmeasure [120]).1 5
  have hfull : stepTimes Writing.step 5 ⟨[], [.value (.list [.list [], .list []])], [120]⟩ =
      .ok ⟨[], [.value (.list []), .value (.list []), .closeList], [120, 40]⟩ := rfl
  refine ⟨hmeasure, s, hrun, ?_, houtput⟩
  rw [Outcome.ok.inj (hrun.symm.trans hfull)]
  rfl

end Suffices

end Assuan
