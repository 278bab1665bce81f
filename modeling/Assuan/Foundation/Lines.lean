import Mathlib.Tactic.Common

/-!
# Splitting a stream after a terminator

The reference notion of a line: a stream is cut after every occurrence of a
terminator `t`, and what follows the last one is the unfinished tail.
`firstSegment` cuts once, `splitAfter` cuts everywhere. Nothing here knows
about bytes, limits or buffers.
-/

namespace Assuan

variable {α : Type} [DecidableEq α]

/-- The first segment, its terminator included, and the rest. -/
def firstSegment (t : α) : List α → Option (List α × List α)
  | [] => none
  | x :: xs =>
      if x = t then some ([x], xs)
      else (firstSegment t xs).map fun p => (x :: p.1, p.2)

/-- All segments, their terminators included, and the unfinished tail. -/
def splitAfter (t : α) : List α → List (List α) × List α
  | [] => ([], [])
  | x :: xs =>
      if x = t then ([x] :: (splitAfter t xs).1, (splitAfter t xs).2)
      else
        match (splitAfter t xs).1 with
        | [] => ([], x :: (splitAfter t xs).2)
        | seg :: segs => ((x :: seg) :: segs, (splitAfter t xs).2)

/-- A segment: one terminator, at its end. -/
def Terminated (t : α) (seg : List α) : Prop := ∃ body, t ∉ body ∧ seg = body ++ [t]

theorem firstSegment_body {t : α} {rest : List α} : ∀ {body : List α}, t ∉ body →
    firstSegment t (body ++ t :: rest) = some (body ++ [t], rest)
  | [], _ => by simp [firstSegment]
  | x :: xs, h => by
      rw [List.mem_cons, not_or] at h
      rw [List.cons_append, firstSegment, if_neg (Ne.symm h.1), firstSegment_body h.2]
      rfl

theorem Terminated.firstSegment {t : α} {seg : List α} (h : Terminated t seg)
    (rest : List α) : firstSegment t (seg ++ rest) = some (seg, rest) := by
  obtain ⟨body, hbody, rfl⟩ := h
  rw [List.append_assoc, List.singleton_append, firstSegment_body hbody]

theorem firstSegment_eq_none {t : α} {xs : List α} :
    firstSegment t xs = none ↔ t ∉ xs := by
  induction xs with
  | nil => simp [firstSegment]
  | cons x xs ih =>
      by_cases h : x = t
      · simp [firstSegment, h]
      · simp [firstSegment, h, ih, Ne.symm h]

theorem firstSegment_eq_some {t : α} {xs seg rest : List α}
    (h : firstSegment t xs = some (seg, rest)) :
    Terminated t seg ∧ xs = seg ++ rest := by
  induction xs generalizing seg with
  | nil => simp [firstSegment] at h
  | cons x xs ih =>
      rw [firstSegment] at h
      by_cases hx : x = t
      · rw [if_pos hx] at h
        obtain ⟨rfl, rfl⟩ := Prod.mk.inj (Option.some.inj h)
        exact ⟨⟨[], by simp, by simp [hx]⟩, rfl⟩
      · rw [if_neg hx, Option.map_eq_some_iff] at h
        obtain ⟨⟨seg', rest'⟩, hseg, heq⟩ := h
        obtain ⟨rfl, rfl⟩ := Prod.mk.inj heq
        obtain ⟨⟨body, hbody, rfl⟩, rfl⟩ := ih hseg
        refine ⟨⟨x :: body, ?_, rfl⟩, rfl⟩
        simp [hbody, Ne.symm hx]

theorem firstSegment_append_of_none {t : α} {xs ys : List α}
    (h : firstSegment t xs = none) :
    firstSegment t (xs ++ ys) = (firstSegment t ys).map fun p => (xs ++ p.1, p.2) := by
  induction xs with
  | nil => simp
  | cons x xs ih =>
      rw [firstSegment_eq_none, List.mem_cons, not_or] at h
      rw [List.cons_append, firstSegment, if_neg (Ne.symm h.1),
        ih (firstSegment_eq_none.mpr h.2), Option.map_map]
      rfl

/-- A segment that starts with bytes without terminator goes on beyond them. -/
theorem Terminated.extends {t : α} {seg xs later rest : List α} (h : Terminated t seg)
    (hxs : t ∉ xs) (heq : xs ++ later = seg ++ rest) :
    ∃ seg', Terminated t seg' ∧ seg = xs ++ seg' ∧ later = seg' ++ rest := by
  have hfirst := h.firstSegment rest
  rw [← heq, firstSegment_append_of_none (firstSegment_eq_none.mpr hxs),
    Option.map_eq_some_iff] at hfirst
  obtain ⟨⟨seg', rest'⟩, hseg, hpair⟩ := hfirst
  obtain ⟨rfl, rfl⟩ := Prod.mk.inj hpair
  obtain ⟨hterm, hlater⟩ := firstSegment_eq_some hseg
  exact ⟨seg', hterm, rfl, hlater⟩

omit [DecidableEq α] in
theorem Terminated.length_pos {t : α} {seg : List α} (h : Terminated t seg) :
    0 < seg.length := by
  obtain ⟨body, -, rfl⟩ := h
  simp

omit [DecidableEq α] in
theorem length_le_flatten {t : α} {segs : List (List α)} (h : ∀ seg ∈ segs, Terminated t seg) :
    segs.length ≤ segs.flatten.length := by
  induction segs with
  | nil => exact Nat.le_refl _
  | cons seg segs ih =>
      have hpos := (h seg List.mem_cons_self).length_pos
      have hrest := ih fun s hs => h s (List.mem_cons_of_mem _ hs)
      rw [List.length_cons, List.flatten_cons, List.length_append]
      omega

/-- Two segments at the head of one list are the same. -/
theorem Terminated.unique {t : α} {seg seg' rest rest' : List α} (h : Terminated t seg)
    (h' : Terminated t seg') (heq : seg ++ rest = seg' ++ rest') : seg = seg' ∧ rest = rest' := by
  have hfirst := h.firstSegment rest
  rw [heq, h'.firstSegment rest'] at hfirst
  exact ⟨(Prod.mk.inj (Option.some.inj hfirst)).1.symm, (Prod.mk.inj (Option.some.inj hfirst)).2.symm⟩

theorem splitAfter_of_none {t : α} {xs : List α} (h : firstSegment t xs = none) :
    splitAfter t xs = ([], xs) := by
  induction xs with
  | nil => rfl
  | cons x xs ih =>
      rw [firstSegment_eq_none, List.mem_cons, not_or] at h
      rw [splitAfter, if_neg (Ne.symm h.1), ih (firstSegment_eq_none.mpr h.2)]

theorem splitAfter_of_some {t : α} {xs seg rest : List α}
    (h : firstSegment t xs = some (seg, rest)) :
    splitAfter t xs = (seg :: (splitAfter t rest).1, (splitAfter t rest).2) := by
  induction xs generalizing seg with
  | nil => simp [firstSegment] at h
  | cons x xs ih =>
      rw [firstSegment] at h
      by_cases hx : x = t
      · rw [if_pos hx] at h
        obtain ⟨rfl, rfl⟩ := Prod.mk.inj (Option.some.inj h)
        rw [splitAfter, if_pos hx]
      · rw [if_neg hx, Option.map_eq_some_iff] at h
        obtain ⟨⟨seg', rest'⟩, hseg, heq⟩ := h
        obtain ⟨rfl, rfl⟩ := Prod.mk.inj heq
        rw [splitAfter, if_neg hx, ih hseg]

/-- Cutting a concatenation of segments gives them back. -/
theorem splitAfter_flatten {t : α} {segs : List (List α)} (tail : List α)
    (h : ∀ seg ∈ segs, Terminated t seg) :
    splitAfter t (segs.flatten ++ tail) =
      (segs ++ (splitAfter t tail).1, (splitAfter t tail).2) := by
  induction segs with
  | nil => simp
  | cons seg segs ih =>
      have hseg := (h seg List.mem_cons_self).firstSegment (segs.flatten ++ tail)
      rw [List.flatten_cons, List.append_assoc, splitAfter_of_some hseg,
        ih fun s hs => h s (List.mem_cons_of_mem _ hs)]
      rfl

/-- Nothing is lost by cutting. -/
theorem splitAfter_join (t : α) (xs : List α) :
    (splitAfter t xs).1.flatten ++ (splitAfter t xs).2 = xs := by
  induction xs with
  | nil => rfl
  | cons x xs ih =>
      rw [splitAfter]
      split
      · show x :: ((splitAfter t xs).1.flatten ++ (splitAfter t xs).2) = x :: xs
        rw [ih]
      · cases hsegs : (splitAfter t xs).1 with
        | nil =>
            rw [hsegs] at ih
            simpa using ih
        | cons seg segs =>
            rw [hsegs] at ih
            simpa using ih

end Assuan
