import Assuan.Foundation.Decimal

/-!
# Canonical S-expressions (`assuan-sexpr/src/value.rs`)

The tree, its reference encoding and the three measures that the limits of the
parser and of the writer talk about.
-/

namespace Assuan

inductive Sexpr : Type where
  | atom (bytes : Bytes)
  | list (children : List Sexpr)

namespace Sexpr

/-- `:` -/
def colon : UInt8 := 58

/-- `(` -/
def openParen : UInt8 := 40

/-- `)` -/
def closeParen : UInt8 := 41

/-- The length, a colon and the payload. -/
def canonAtom (bytes : Bytes) : Bytes := decimal bytes.length ++ colon :: bytes

mutual

/-- The reference encoding, by recursion on the tree. -/
def canon : Sexpr → Bytes
  | .atom bytes => canonAtom bytes
  | .list children => openParen :: (canonList children ++ [closeParen])

def canonList : List Sexpr → Bytes
  | [] => []
  | child :: children => canon child ++ canonList children

end

mutual

/-- Atoms plus lists. -/
def nodes : Sexpr → ℕ
  | .atom _ => 1
  | .list children => 1 + nodesList children

def nodesList : List Sexpr → ℕ
  | [] => 0
  | child :: children => nodes child + nodesList children

end

mutual

/-- The largest number of lists around a point of the tree. -/
def depth : Sexpr → ℕ
  | .atom _ => 0
  | .list children => 1 + depthList children

def depthList : List Sexpr → ℕ
  | [] => 0
  | child :: children => max (depth child) (depthList children)

end

mutual

/-- No atom has more than `max` bytes. -/
def AtomsWithin (max : ℕ) : Sexpr → Prop
  | .atom bytes => bytes.length ≤ max
  | .list children => AtomsWithinList max children

def AtomsWithinList (max : ℕ) : List Sexpr → Prop
  | [] => True
  | child :: children => AtomsWithin max child ∧ AtomsWithinList max children

end

theorem nodes_pos (v : Sexpr) : 0 < v.nodes := by
  cases v with
  | atom bytes => exact Nat.one_pos
  | list children =>
      rw [nodes]
      omega

/-! ## Lists of children grow at the end -/

theorem canonList_append (xs ys : List Sexpr) :
    canonList (xs ++ ys) = canonList xs ++ canonList ys := by
  induction xs with
  | nil => rfl
  | cons x xs ih => simp only [List.cons_append, canonList, ih, List.append_assoc]

theorem canonList_snoc (xs : List Sexpr) (v : Sexpr) :
    canonList (xs ++ [v]) = canonList xs ++ canon v := by
  rw [canonList_append]
  simp only [canonList, List.append_nil]

theorem nodesList_append (xs ys : List Sexpr) :
    nodesList (xs ++ ys) = nodesList xs + nodesList ys := by
  induction xs with
  | nil => simp [nodesList]
  | cons x xs ih => simp only [List.cons_append, nodesList, ih, Nat.add_assoc]

theorem nodesList_snoc (xs : List Sexpr) (v : Sexpr) :
    nodesList (xs ++ [v]) = nodesList xs + nodes v := by
  rw [nodesList_append]
  rfl

theorem depthList_append (xs ys : List Sexpr) :
    depthList (xs ++ ys) = max (depthList xs) (depthList ys) := by
  induction xs with
  | nil => simp [depthList]
  | cons x xs ih => simp only [List.cons_append, depthList, ih, Nat.max_assoc]

theorem depthList_snoc (xs : List Sexpr) (v : Sexpr) :
    depthList (xs ++ [v]) = max (depthList xs) (depth v) := by
  rw [depthList_append]
  simp only [depthList, Nat.max_zero]

theorem atomsWithinList_snoc (max : ℕ) (xs : List Sexpr) (v : Sexpr) :
    AtomsWithinList max (xs ++ [v]) ↔ AtomsWithinList max xs ∧ AtomsWithin max v := by
  induction xs with
  | nil => simp [AtomsWithinList]
  | cons x xs ih => simp only [List.cons_append, AtomsWithinList, ih, and_assoc]

/-! ## A larger bound on the atoms -/

mutual

theorem atomsWithin_mono {max max' : ℕ} (h : max ≤ max') {v : Sexpr} (hv : v.AtomsWithin max) :
    v.AtomsWithin max' := by
  cases v with
  | atom bytes => exact Nat.le_trans hv h
  | list children => exact atomsWithinList_mono h hv

theorem atomsWithinList_mono {max max' : ℕ} (h : max ≤ max') {vs : List Sexpr}
    (hvs : AtomsWithinList max vs) : AtomsWithinList max' vs := by
  cases vs with
  | nil => trivial
  | cons v vs => exact ⟨atomsWithin_mono h hvs.1, atomsWithinList_mono h hvs.2⟩

end

end Sexpr

end Assuan
