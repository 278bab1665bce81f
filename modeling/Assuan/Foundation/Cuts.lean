import Mathlib.Order.Bounds.Basic
import Mathlib.Tactic.Common

/-!
# Cutting a list greedily

A list is sent in pieces, each of which must fit. The greedy cutter takes the
longest prefix that fits, again and again, and makes one piece even of the empty
list. When dropping a prefix of a piece never makes it too long, no other way of
cutting the list has fewer pieces. The other cutter meets the elements one by one,
and begins a new piece with an element for which the last one has no room.
-/

namespace Assuan

variable {α : Type}

/-- `cuts` are consecutive pieces of `whole`, at least one, each of which fits. -/
structure Cutting (fits : List α → Prop) (whole : List α) (cuts : List (List α)) : Prop where
  nonempty : cuts ≠ []
  flatten : cuts.flatten = whole
  fits : ∀ piece ∈ cuts, fits piece

/-- Takes `fit rest` elements at a time. The first argument bounds the pieces. -/
def greedyCuts (fit : List α → ℕ) : ℕ → List α → List (List α)
  | 0, _ => []
  | fuel + 1, rest =>
      rest.take (fit rest) ::
        match rest.drop (fit rest) with
        | [] => []
        | b :: tail => greedyCuts fit fuel (b :: tail)

/-- `fit` is the length of the longest prefix that fits, and it makes progress. -/
structure Greedy (fits : List α → Prop) (fit : List α → ℕ) : Prop where
  take : ∀ rest : List α, fits (rest.take (fit rest))
  longest : ∀ piece tail, fits piece → piece.length ≤ fit (piece ++ tail)
  pos : ∀ rest, rest ≠ [] → 0 < fit rest

section Greedy

variable {fits : List α → Prop} {fit : List α → ℕ}

theorem greedyCuts_succ (fit : List α → ℕ) (fuel : ℕ) (rest : List α) :
    greedyCuts fit (fuel + 1) rest = rest.take (fit rest) ::
      if rest.drop (fit rest) = [] then [] else greedyCuts fit fuel (rest.drop (fit rest)) := by
  rw [greedyCuts]
  cases rest.drop (fit rest) with
  | nil => rfl
  | cons b tail => rfl

/-- What the first piece leaves is shorter. -/
theorem Greedy.drop_lt (hg : Greedy fits fit) {rest : List α} (h : rest.drop (fit rest) ≠ []) :
    (rest.drop (fit rest)).length < rest.length := by
  have hne : rest ≠ [] := by
    rintro rfl
    exact h List.drop_nil
  have hpos := hg.pos rest hne
  have hlt : 0 < rest.length := List.length_pos_iff.mpr hne
  rw [List.length_drop]
  omega

theorem Greedy.cutting (hg : Greedy fits fit) {fuel : ℕ} {rest : List α}
    (hfuel : rest.length < fuel) : Cutting fits rest (greedyCuts fit fuel rest) := by
  induction fuel generalizing rest with
  | zero => omega
  | succ fuel ih =>
      rw [greedyCuts_succ]
      by_cases hnil : rest.drop (fit rest) = []
      · rw [if_pos hnil]
        refine ⟨by simp, ?_, ?_⟩
        · simpa using List.take_of_length_le (List.drop_eq_nil_iff.mp hnil)
        · rintro piece hpiece
          rw [List.mem_singleton.mp hpiece]
          exact hg.take rest
      · have hlt := hg.drop_lt hnil
        obtain ⟨-, hflat, hfits⟩ := @ih (rest.drop (fit rest)) (by omega)
        rw [if_neg hnil]
        refine ⟨by simp, ?_, ?_⟩
        · rw [List.flatten_cons, hflat, List.take_append_drop]
        · rintro piece hpiece
          rcases List.mem_cons.mp hpiece with rfl | hpiece
          · exact hg.take rest
          · exact hfits piece hpiece

/-- The greedy cutter stays ahead: started anywhere inside a list that is cut
otherwise, it needs no more pieces. -/
theorem Greedy.length_le (hg : Greedy fits fit)
    (hsuffix : ∀ front piece, fits (front ++ piece) → fits piece)
    {cuts : List (List α)} (hfits : ∀ piece ∈ cuts, fits piece) {fuel : ℕ} {rest : List α}
    (hrest : rest <:+ cuts.flatten) (hne : cuts ≠ []) :
    (greedyCuts fit fuel rest).length ≤ cuts.length := by
  induction cuts generalizing fuel rest with
  | nil => exact absurd rfl hne
  | cons piece cuts ih =>
      cases fuel with
      | zero => exact Nat.zero_le _
      | succ fuel =>
          rw [greedyCuts_succ, List.length_cons, List.length_cons]
          by_cases hnil : rest.drop (fit rest) = []
          · rw [if_pos hnil]
            simp
          · rw [if_neg hnil]
            -- the rest of the greedy cutter lies inside the rest of the other cutting
            have hinside : rest.drop (fit rest) <:+ cuts.flatten := by
              obtain ⟨front, hfront⟩ := hrest
              rw [List.flatten_cons] at hfront
              rcases List.append_eq_append_iff.mp hfront with ⟨back, rfl, rfl⟩ | ⟨mid, rfl, hmid⟩
              · have hlong := hg.longest back cuts.flatten
                  (hsuffix front back (hfits _ List.mem_cons_self))
                rw [List.drop_append, List.drop_of_length_le hlong, List.nil_append]
                exact List.drop_suffix _ _
              · rw [hmid]
                exact (List.drop_suffix _ _).trans (List.suffix_append _ _)
            have hne' : cuts ≠ [] := by
              rintro rfl
              exact hnil (List.suffix_nil.mp hinside)
            have hfits' : ∀ p ∈ cuts, fits p := fun p hp => hfits p (List.mem_cons_of_mem _ hp)
            exact Nat.succ_le_succ (ih hfits' hinside hne')

/-- **Greedy cutting is optimal.** -/
theorem Greedy.isLeast (hg : Greedy fits fit)
    (hsuffix : ∀ front piece, fits (front ++ piece) → fits piece)
    {fuel : ℕ} {whole : List α} (hfuel : whole.length < fuel) :
    IsLeast {n | ∃ cuts, Cutting fits whole cuts ∧ n = cuts.length}
      (greedyCuts fit fuel whole).length := by
  refine ⟨⟨_, hg.cutting hfuel, rfl⟩, ?_⟩
  rintro n ⟨cuts, ⟨hne, rfl, hfits⟩, rfl⟩
  exact hg.length_le hsuffix hfits (List.suffix_refl _) hne

end Greedy

/-! ## Element by element -/

def totalSize (size : α → ℕ) : List α → ℕ
  | [] => 0
  | a :: rest => size a + totalSize size rest

/-- The elements so far are `piece`. -/
def packed (size : α → ℕ) (limit : ℕ) : List α → List α → List (List α)
  | [], piece => if piece = [] then [] else [piece]
  | a :: rest, piece =>
      if totalSize size piece + size a > limit then piece :: packed size limit rest [a]
      else packed size limit rest (piece ++ [a])

section Packed

variable {size : α → ℕ} {limit : ℕ}

theorem totalSize_snoc (piece : List α) (a : α) :
    totalSize size (piece ++ [a]) = totalSize size piece + size a := by
  induction piece with
  | nil => exact Nat.add_comm _ _
  | cons b piece ih =>
      rw [List.cons_append, totalSize, ih, totalSize]
      omega

theorem packed_flatten (rest piece : List α) :
    (packed size limit rest piece).flatten = piece ++ rest := by
  induction rest generalizing piece with
  | nil =>
      rw [packed]
      by_cases hnil : piece = []
      · simp [hnil]
      · simp [hnil]
  | cons a rest ih =>
      rw [packed]
      by_cases hfull : totalSize size piece + size a > limit
      · rw [if_pos hfull, List.flatten_cons, ih]
        rfl
      · rw [if_neg hfull, ih, List.append_assoc]
        rfl

/-- An element that fits alone never finds an empty piece too full. -/
theorem packed_fits {rest piece : List α} (hsize : ∀ a ∈ rest, size a ≤ limit)
    (hpiece : totalSize size piece ≤ limit) :
    ∀ p ∈ packed size limit rest piece, p ≠ [] ∧ totalSize size p ≤ limit := by
  induction rest generalizing piece with
  | nil =>
      intro p hp
      rw [packed] at hp
      by_cases hnil : piece = []
      · simp [hnil] at hp
      · rw [if_neg hnil, List.mem_singleton] at hp
        rw [hp]
        exact ⟨hnil, hpiece⟩
  | cons a rest ih =>
      have ha : size a ≤ limit := hsize a List.mem_cons_self
      have hrest : ∀ b ∈ rest, size b ≤ limit := fun b hb => hsize b (List.mem_cons_of_mem _ hb)
      intro p hp
      rw [packed] at hp
      by_cases hfull : totalSize size piece + size a > limit
      · rw [if_pos hfull] at hp
        rcases List.mem_cons.mp hp with rfl | hp
        · refine ⟨?_, hpiece⟩
          rintro rfl
          rw [totalSize] at hfull
          omega
        · exact ih hrest (by simpa [totalSize] using ha) p hp
      · rw [if_neg hfull] at hp
        apply ih hrest _ p hp
        rw [totalSize_snoc]
        omega

end Packed

end Assuan
