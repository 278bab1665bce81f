import Assuan.Sexpr.Value

/-!
# Owned copies (`Sexpr::to_owned` of `assuan-sexpr/src/value.rs`)

The copy walks the tree with a stack of half-consumed child iterators. Its state
stands for a tree in which the cursor is one place: what is left and right of it
on every level, the left side already copied. No turn of the loop changes the
copy of that tree, and every turn visits one node.
-/

namespace Assuan

inductive OwnedSexpr : Type where
  | atom (bytes : Bytes)
  | list (children : List OwnedSexpr)

/-! ## §1  The loop -/

/-- An entry of `parents`: the children the iterator still has, and the copies of
those before it. -/
structure CopyFrame : Type where
  remaining : List Sexpr
  ownedChildren : List OwnedSexpr

/-- `parents` has its last entry first. -/
structure CopyState : Type where
  cursor : Sexpr
  parents : List CopyFrame

/-- How a turn of `'visit` ends: with `continue 'visit`, or with the result. -/
inductive CopyTurn : Type where
  | visit (s : CopyState)
  | done (value : OwnedSexpr)

/-- `while let Some((mut remaining, mut owned_children)) = parents.pop()`. -/
def attach (completed : OwnedSexpr) : List CopyFrame → CopyTurn
  | [] => .done completed
  | frame :: parents =>
      let ownedChildren := frame.ownedChildren ++ [completed]
      match frame.remaining with
      | next :: remaining => .visit ⟨next, ⟨remaining, ownedChildren⟩ :: parents⟩
      | [] => attach (.list ownedChildren) parents

/-- One turn of `'visit`. -/
def copyTurn (s : CopyState) : CopyTurn :=
  match s.cursor with
  | .atom bytes => attach (.atom bytes) s.parents
  | .list (first :: remaining) => .visit ⟨first, ⟨remaining, []⟩ :: s.parents⟩
  | .list [] => attach (.list []) s.parents

/-! ## §2  Termination -/

/-- The nodes that were not visited yet, the cursor included. -/
def CopyState.unvisited (s : CopyState) : ℕ :=
  s.cursor.nodes + (s.parents.map fun frame => Sexpr.nodesList frame.remaining).sum

theorem attach_unvisited {completed : OwnedSexpr} {parents : List CopyFrame} {s : CopyState}
    (h : attach completed parents = .visit s) :
    s.unvisited = (parents.map fun frame => Sexpr.nodesList frame.remaining).sum := by
  induction parents generalizing completed with
  | nil => exact absurd h (by simp [attach])
  | cons frame parents ih =>
      obtain ⟨remaining, ownedChildren⟩ := frame
      cases remaining with
      | nil =>
          rw [ih h]
          simp [Sexpr.nodesList]
      | cons next remaining =>
          obtain rfl := CopyTurn.visit.inj h
          simp [CopyState.unvisited, Sexpr.nodesList, Nat.add_assoc]

/-- Each turn visits one node. -/
theorem copyTurn_unvisited {s s' : CopyState} (h : copyTurn s = .visit s') :
    s.unvisited = s'.unvisited + 1 := by
  obtain ⟨cursor, parents⟩ := s
  cases cursor with
  | atom bytes =>
      rw [attach_unvisited h]
      simp only [CopyState.unvisited, Sexpr.nodes]
      omega
  | list children =>
      cases children with
      | nil =>
          rw [attach_unvisited h]
          simp only [CopyState.unvisited, Sexpr.nodes, Sexpr.nodesList]
          omega
      | cons first remaining =>
          obtain rfl := CopyTurn.visit.inj h
          simp only [CopyState.unvisited, Sexpr.nodes, Sexpr.nodesList, List.map_cons,
            List.sum_cons]
          omega

/-- `'visit: loop`. -/
def copyLoop (s : CopyState) : OwnedSexpr :=
  match _h : copyTurn s with
  | .visit s' => copyLoop s'
  | .done value => value
termination_by s.unvisited
decreasing_by
  have := copyTurn_unvisited _h
  omega

/-- `to_owned`. -/
def Sexpr.toOwned (v : Sexpr) : OwnedSexpr := copyLoop ⟨v, []⟩

/-! ## §3  The structural copy -/

mutual

/-- The copy by recursion on the tree. -/
def Sexpr.copy : Sexpr → OwnedSexpr
  | .atom bytes => .atom bytes
  | .list children => .list (Sexpr.copyList children)

def Sexpr.copyList : List Sexpr → List OwnedSexpr
  | [] => []
  | child :: children => Sexpr.copy child :: Sexpr.copyList children

end

mutual

/-- The tree an owned tree was copied from. -/
def OwnedSexpr.view : OwnedSexpr → Sexpr
  | .atom bytes => .atom bytes
  | .list children => .list (OwnedSexpr.viewList children)

def OwnedSexpr.viewList : List OwnedSexpr → List Sexpr
  | [] => []
  | child :: children => OwnedSexpr.view child :: OwnedSexpr.viewList children

end

mutual

theorem OwnedSexpr.view_copy (v : Sexpr) : v.copy.view = v := by
  cases v with
  | atom bytes => rfl
  | list children =>
      rw [Sexpr.copy, OwnedSexpr.view, OwnedSexpr.viewList_copyList]

theorem OwnedSexpr.viewList_copyList (vs : List Sexpr) :
    OwnedSexpr.viewList (Sexpr.copyList vs) = vs := by
  cases vs with
  | nil => rfl
  | cons v vs =>
      rw [Sexpr.copyList, OwnedSexpr.viewList, OwnedSexpr.view_copy v,
        OwnedSexpr.viewList_copyList vs]

end

/-- The copy of the whole tree, when the copy of the cursor is `value`. -/
def rebuild : List CopyFrame → OwnedSexpr → OwnedSexpr
  | [], value => value
  | frame :: parents, value =>
      rebuild parents (.list (frame.ownedChildren ++ value :: Sexpr.copyList frame.remaining))

/-- The copy a turn of the loop still leads to. -/
def CopyTurn.outcome : CopyTurn → OwnedSexpr
  | .visit s => rebuild s.parents s.cursor.copy
  | .done value => value

theorem attach_outcome (completed : OwnedSexpr) (parents : List CopyFrame) :
    (attach completed parents).outcome = rebuild parents completed := by
  induction parents generalizing completed with
  | nil => rfl
  | cons frame parents ih =>
      obtain ⟨remaining, ownedChildren⟩ := frame
      cases remaining with
      | nil => exact ih _
      | cons next remaining =>
          -- the completed child moves to the left of the cursor
          simp only [attach, CopyTurn.outcome, rebuild, Sexpr.copyList, List.append_assoc,
            List.singleton_append]

/-- No turn loses a child, copies one twice or attaches one elsewhere. -/
theorem copyTurn_outcome (s : CopyState) : (copyTurn s).outcome = rebuild s.parents s.cursor.copy := by
  obtain ⟨cursor, parents⟩ := s
  cases cursor with
  | atom bytes => exact attach_outcome _ _
  | list children =>
      cases children with
      | nil => exact attach_outcome _ _
      | cons first remaining => rfl

theorem copyLoop_eq (s : CopyState) : copyLoop s = rebuild s.parents s.cursor.copy := by
  induction s using copyLoop.induct with
  | case1 s s' h ih =>
      rw [copyLoop, ← copyTurn_outcome]
      split
      · next s'' h' =>
          obtain rfl : s' = s'' := CopyTurn.visit.inj (h.symm.trans h')
          rw [ih, h]
          rfl
      · next value h' => exact absurd (h.symm.trans h') (by simp)
  | case2 s value h =>
      rw [copyLoop, ← copyTurn_outcome]
      split
      · next s'' h' => exact absurd (h.symm.trans h') (by simp)
      · next value' h' =>
          rw [h']
          rfl

/-- The first `turns` turns of the loop. -/
def copyTurns : ℕ → CopyTurn → CopyTurn
  | 0, turn => turn
  | _ + 1, .done value => .done value
  | turns + 1, .visit s => copyTurns turns (copyTurn s)

theorem copyTurns_done (turns : ℕ) (value : OwnedSexpr) :
    copyTurns turns (.done value) = .done value := by
  cases turns <;> rfl

theorem copyTurns_visit (s : CopyState) :
    ∀ turns, s.unvisited ≤ turns →
      copyTurns turns (.visit s) = .done (rebuild s.parents s.cursor.copy) := by
  intro turns
  induction turns generalizing s with
  | zero =>
      intro h
      have := Sexpr.nodes_pos s.cursor
      rw [CopyState.unvisited] at h
      omega
  | succ turns ih =>
      intro h
      rw [copyTurns, ← copyTurn_outcome]
      cases hturn : copyTurn s with
      | visit s' =>
          have := copyTurn_unvisited hturn
          exact ih s' (by omega)
      | done value => exact copyTurns_done turns value

/-- **Deep copy.** The loop of `to_owned` ends, after no more turns than the tree
has nodes, with the structural copy of the tree, off which the tree can be read
again. -/
theorem toOwned_eq_copy (v : Sexpr) :
    v.toOwned = v.copy ∧ v.toOwned.view = v ∧
      ∀ turns, v.nodes ≤ turns → copyTurns turns (.visit ⟨v, []⟩) = .done v.copy := by
  have hcopy : v.toOwned = v.copy := copyLoop_eq ⟨v, []⟩
  refine ⟨hcopy, ?_, fun turns h => ?_⟩
  · rw [hcopy, OwnedSexpr.view_copy]
  · exact copyTurns_visit ⟨v, []⟩ turns h

/-- Empty lists at both ends, on two levels. -/
theorem toOwned_eq_copy_nested :
    copyTurns 5 (.visit ⟨.list [.list [], .atom [97], .list [.list []]], []⟩) =
      .done (.list [.list [], .atom [97], .list [.list []]]) :=
  (toOwned_eq_copy (.list [.list [], .atom [97], .list [.list []]])).2.2 5 (by decide)

end Assuan
