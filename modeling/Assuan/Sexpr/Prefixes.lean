import Assuan.Sexpr.ParserSpec

/-!
# The prefixes of canonical encodings

The encodings form a prefix code: an expression can be cut off the front of any
bytes in at most one way. So the bytes of some open lists decide what the rest
of an encoding looks like, and with it which byte may come next.
-/

namespace Assuan

namespace Sexpr

/-! ## §1  A prefix code -/

/-- The bytes that can begin an expression. -/
def Begins (b : UInt8) : Prop := b = openParen ∨ isAsciiDigit b = true

theorem Begins.ne_close {b : UInt8} (h : Begins b) : b ≠ closeParen := by
  rcases h with rfl | h
  · decide
  · rintro rfl
    exact absurd h (by decide)

theorem canonAtom_head (bytes : Bytes) :
    ∃ d rest, canonAtom bytes = d :: rest ∧ isAsciiDigit d = true := by
  obtain ⟨d, ds, hds⟩ := List.exists_cons_of_ne_nil (decimal_ne_nil bytes.length)
  refine ⟨d, ds ++ colon :: bytes, ?_, ?_⟩
  · rw [canonAtom, hds, List.cons_append]
  · apply isAsciiDigit_of_mem_decimal bytes.length
    rw [hds]
    exact List.mem_cons_self

theorem canon_head (v : Sexpr) : ∃ b rest, canon v = b :: rest ∧ Begins b := by
  cases v with
  | atom bytes =>
      obtain ⟨d, rest, hatom, hd⟩ := canonAtom_head bytes
      exact ⟨d, rest, hatom, Or.inr hd⟩
  | list children => exact ⟨openParen, _, rfl, Or.inl rfl⟩

/-- Two runs of digits that end at the same place in the same bytes are one. -/
theorem digits_append_inj {ds es s t : Bytes} (hds : ∀ d ∈ ds, isAsciiDigit d = true)
    (hes : ∀ d ∈ es, isAsciiDigit d = true) (hs : RunEnds s) (ht : RunEnds t)
    (h : ds ++ s = es ++ t) : ds = es ∧ s = t := by
  induction ds generalizing es with
  | nil =>
      cases es with
      | nil => exact ⟨rfl, h⟩
      | cons e es =>
          rw [List.nil_append] at h
          have hend := hs e (by rw [h]; rfl)
          rw [hes e List.mem_cons_self] at hend
          exact absurd hend (by decide)
  | cons d ds ih =>
      cases es with
      | nil =>
          rw [List.nil_append] at h
          have hend := ht d (by rw [← h]; rfl)
          rw [hds d List.mem_cons_self] at hend
          exact absurd hend (by decide)
      | cons e es =>
          obtain ⟨rfl, htail⟩ := List.cons.inj h
          obtain ⟨rfl, rfl⟩ := ih (fun x hx => hds x (List.mem_cons_of_mem _ hx))
            (fun x hx => hes x (List.mem_cons_of_mem _ hx)) htail
          exact ⟨rfl, rfl⟩

theorem runEnds_colon (rest : Bytes) : RunEnds (colon :: rest) := by
  intro b hb
  obtain rfl : colon = b := by simpa using hb
  decide

theorem canonAtom_append_inj {p q s t : Bytes} (h : canonAtom p ++ s = canonAtom q ++ t) :
    p = q ∧ s = t := by
  simp only [canonAtom, List.append_assoc, List.cons_append] at h
  obtain ⟨hdigits, hrest⟩ := digits_append_inj (isAsciiDigit_of_mem_decimal p.length)
    (isAsciiDigit_of_mem_decimal q.length) (runEnds_colon _) (runEnds_colon _) h
  have hlen : p.length = q.length := by
    rw [← decimalValue_decimal p.length, hdigits, decimalValue_decimal]
  exact List.append_inj (List.cons.inj hrest).2 hlen

mutual

/-- An expression is cut off the front of the bytes in only one way. -/
theorem canon_append_inj (v w : Sexpr) (s t : Bytes) (h : canon v ++ s = canon w ++ t) :
    v = w ∧ s = t := by
  cases v with
  | atom p =>
      cases w with
      | atom q =>
          obtain ⟨rfl, rfl⟩ := canonAtom_append_inj h
          exact ⟨rfl, rfl⟩
      | list ws =>
          obtain ⟨d, rest, hatom, hd⟩ := canonAtom_head p
          simp only [canon, hatom, List.cons_append] at h
          rw [(List.cons.inj h).1] at hd
          exact absurd hd (by decide)
  | list vs =>
      cases w with
      | atom q =>
          obtain ⟨d, rest, hatom, hd⟩ := canonAtom_head q
          simp only [canon, hatom, List.cons_append] at h
          rw [← (List.cons.inj h).1] at hd
          exact absurd hd (by decide)
      | list ws =>
          simp only [canon, List.cons_append, List.append_assoc, List.nil_append] at h
          obtain ⟨more, rfl, hrest⟩ := canonList_split vs ws _ t (List.cons.inj h).2
          -- the closing parenthesis of the first list leaves no child of the second over
          cases more with
          | nil => exact ⟨by rw [List.append_nil], (List.cons.inj hrest).2⟩
          | cons child more =>
              obtain ⟨b, tail, hchild, hb⟩ := canon_head child
              simp only [canonList, hchild, List.cons_append] at hrest
              exact absurd (List.cons.inj hrest).1.symm hb.ne_close

/-- Children read in front of the end of a list are its first children. -/
theorem canonList_split (inner children : List Sexpr) (rest t : Bytes)
    (h : canonList inner ++ rest = canonList children ++ closeParen :: t) :
    ∃ more, children = inner ++ more ∧ rest = canonList more ++ closeParen :: t := by
  cases inner with
  | nil => exact ⟨children, rfl, h⟩
  | cons v inner =>
      cases children with
      | nil =>
          obtain ⟨b, tail, hv, hb⟩ := canon_head v
          simp only [canonList, hv, List.cons_append, List.nil_append] at h
          exact absurd (List.cons.inj h).1 hb.ne_close
      | cons child children =>
          simp only [canonList, List.append_assoc] at h
          obtain ⟨rfl, htail⟩ := canon_append_inj v child _ _ h
          obtain ⟨more, rfl, hrest⟩ := canonList_split inner children rest t htail
          exact ⟨more, rfl, hrest⟩

end

/-- No encoding is a proper prefix of another. -/
theorem canon_prefix_eq {v w : Sexpr} (h : canon v <+: canon w) : v = w := by
  obtain ⟨s, hs⟩ := h
  have hcut : canon v ++ s = canon w ++ [] := by rw [hs, List.append_nil]
  exact (canon_append_inj v w s [] hcut).1

/-! ## §2  What may follow open lists -/

/-- The ends of open lists, innermost first: the children still to come and the
closing parenthesis of each. -/
def closing : List (List Sexpr) → Bytes
  | [] => []
  | children :: outer => canonList children ++ closeParen :: closing outer

/-- The rest of an encoding that begins with open lists. -/
def Completes (lists : List (List Sexpr)) (rest : Bytes) : Prop :=
  (lists = [] ∧ ∃ v, rest = canon v) ∨
  ∃ children outer more, lists = children :: outer ∧ more.length = lists.length ∧
    rest = closing more

/-- The open lists at the front of an encoding decide the form of the rest. -/
theorem completes_of_canon {v : Sexpr} :
    ∀ (lists : List (List Sexpr)) (rest : Bytes), canon v = openedBytes lists ++ rest →
      Completes lists rest := by
  intro lists
  induction lists with
  | nil =>
      intro rest h
      exact Or.inl ⟨rfl, v, h.symm⟩
  | cons children outer ih =>
      intro rest h
      simp only [openedBytes, List.append_assoc, List.cons_append] at h
      rcases ih _ h with ⟨rfl, w, hw⟩ | ⟨inner, outer', more, rfl, hlen, hmore⟩
      · -- the outermost list is the whole expression
        cases w with
        | atom bytes =>
            obtain ⟨d, tail, hatom, hd⟩ := canonAtom_head bytes
            rw [canon, hatom] at hw
            rw [← (List.cons.inj hw).1] at hd
            exact absurd hd (by decide)
        | list all =>
            obtain ⟨more, -, hrest⟩ := canonList_split children all rest [] (List.cons.inj hw).2
            exact Or.inr ⟨children, [], [more], rfl, rfl, hrest⟩
      · -- the list is a child of the one around it
        cases more with
        | nil => exact absurd hlen (by simp)
        | cons siblings more =>
            cases siblings with
            | nil =>
                simp only [closing, canonList, List.nil_append] at hmore
                exact absurd (List.cons.inj hmore).1 (by decide)
            | cons child siblings =>
                simp only [closing, canonList, List.append_assoc] at hmore
                cases child with
                | atom bytes =>
                    obtain ⟨d, tail, hatom, hd⟩ := canonAtom_head bytes
                    rw [canon, hatom, List.cons_append] at hmore
                    rw [← (List.cons.inj hmore).1] at hd
                    exact absurd hd (by decide)
                | list all =>
                    simp only [canon, List.cons_append, List.append_assoc,
                      List.nil_append] at hmore
                    obtain ⟨left, -, hrest⟩ :=
                      canonList_split children all rest _ (List.cons.inj hmore).2
                    refine Or.inr ⟨children, inner :: outer', left :: siblings :: more, rfl, ?_, hrest⟩
                    simp only [List.length_cons] at hlen ⊢
                    omega

/-- After open lists comes the beginning of an expression, or the end of the
innermost list. -/
theorem Completes.head {lists : List (List Sexpr)} {b : UInt8} {rest : Bytes}
    (h : Completes lists (b :: rest)) : Begins b ∨ (lists ≠ [] ∧ b = closeParen) := by
  rcases h with ⟨rfl, v, hv⟩ | ⟨children, outer, more, rfl, hlen, hmore⟩
  · obtain ⟨b', tail, hcanon, hb⟩ := canon_head v
    rw [hcanon] at hv
    rw [(List.cons.inj hv).1]
    exact Or.inl hb
  · cases more with
    | nil => exact absurd hlen (by simp)
    | cons siblings more =>
        cases siblings with
        | nil => exact Or.inr ⟨by simp, (List.cons.inj hmore).1⟩
        | cons child siblings =>
            obtain ⟨b', tail, hcanon, hb⟩ := canon_head child
            simp only [closing, canonList, hcanon, List.cons_append] at hmore
            rw [(List.cons.inj hmore).1]
            exact Or.inl hb

/-- A digit after open lists is the first byte of a whole atom. -/
theorem Completes.atom {lists : List (List Sexpr)} {d : UInt8} {rest : Bytes}
    (h : Completes lists (d :: rest)) (hd : isAsciiDigit d = true) :
    ∃ payload post, d :: rest = canonAtom payload ++ post := by
  have hopen : d ≠ openParen := by
    rintro rfl
    exact absurd hd (by decide)
  have hclose : d ≠ closeParen := by
    rintro rfl
    exact absurd hd (by decide)
  rcases h with ⟨rfl, v, hv⟩ | ⟨children, outer, more, rfl, hlen, hmore⟩
  · cases v with
    | atom payload => exact ⟨payload, [], by rw [hv, canon, List.append_nil]⟩
    | list all => exact absurd (List.cons.inj hv).1 hopen
  · cases more with
    | nil => exact absurd hlen (by simp)
    | cons siblings more =>
        cases siblings with
        | nil => exact absurd (List.cons.inj hmore).1 hclose
        | cons child siblings =>
            simp only [closing, canonList, List.append_assoc] at hmore
            cases child with
            | atom payload => exact ⟨payload, _, hmore⟩
            | list all => exact absurd (List.cons.inj hmore).1 hopen

/-! ## §3  Viable and dead prefixes -/

/-- The tree in which `v` is the last child of the innermost of the open lists. -/
def plug : List (List Sexpr) → Sexpr → Sexpr
  | [], v => v
  | children :: outer, v => plug outer (.list (children ++ [v]))

theorem openedBytes_prefix_plug (lists : List (List Sexpr)) (v : Sexpr) :
    openedBytes lists ++ canon v <+: canon (plug lists v) := by
  induction lists generalizing v with
  | nil => exact List.prefix_rfl
  | cons children outer ih =>
      refine List.IsPrefix.trans ?_ (ih (.list (children ++ [v])))
      refine ⟨[closeParen], ?_⟩
      simp only [openedBytes, canon, canonList_snoc, List.append_assoc, List.cons_append]

theorem atomsWithin_plug {limits : ParseLimits} {max : ℕ} (hmax : limits.maxAtom ≤ max)
    {lists : List (List Sexpr)} {v : Sexpr} (hlists : OpenedWithin limits lists)
    (hv : v.AtomsWithin max) : (plug lists v).AtomsWithin max := by
  induction lists generalizing v with
  | nil => exact hv
  | cons children outer ih =>
      obtain ⟨houter, -, hchildren⟩ := hlists
      exact ih houter ((atomsWithinList_snoc _ _ _).mpr ⟨atomsWithinList_mono hmax hchildren, hv⟩)

/-- The beginning of the encoding of a tree, whose atoms have `usize` lengths. -/
def Viable (p : Bytes) : Prop := ∃ v : Sexpr, v.AtomsWithin usizeMax ∧ p <+: canon v

/-- No encoding begins so. -/
def Dead (p : Bytes) : Prop := ∀ v : Sexpr, ¬ p <+: canon v

theorem viable_opened {limits : ParseLimits} {lists : List (List Sexpr)} {v : Sexpr} {p : Bytes}
    (hlists : OpenedWithin limits lists) (hv : v.AtomsWithin usizeMax) (hp : p <+: canon v) :
    Viable (openedBytes lists ++ p) := by
  have hmax : limits.maxAtom ≤ usizeMax := Nat.le_trans limits.atom_le limits.input_usize
  refine ⟨plug lists v, atomsWithin_plug hmax hlists hv, ?_⟩
  exact List.IsPrefix.trans ((List.prefix_append_right_inj _).mpr hp) (openedBytes_prefix_plug lists v)

/-- A byte that neither begins an expression nor closes the innermost list. -/
theorem dead_token {lists : List (List Sexpr)} {b : UInt8} (hb : ¬ Begins b)
    (hclose : lists ≠ [] → b ≠ closeParen) : Dead (openedBytes lists ++ [b]) := by
  rintro v ⟨rest, hrest⟩
  rw [List.append_assoc, List.singleton_append] at hrest
  rcases (completes_of_canon lists _ hrest.symm).head with h | ⟨hne, h⟩
  · exact hb h
  · exact hclose hne h

/-- A run of digits that is no numeral so far, or that ends with another byte
than a colon. -/
theorem dead_atom {lists : List (List Sexpr)} {ds : Bytes} {b : UInt8} (hne : ds ≠ [])
    (hds : ∀ d ∈ ds, isAsciiDigit d = true)
    (hb : (isAsciiDigit b = true ∧ ds = [digitByte 0]) ∨
      (isAsciiDigit b = false ∧ b ≠ colon)) :
    Dead (openedBytes lists ++ (ds ++ [b])) := by
  rintro v ⟨rest, hrest⟩
  simp only [List.append_assoc, List.singleton_append] at hrest
  obtain ⟨d, ds', rfl⟩ := List.exists_cons_of_ne_nil hne
  have hcompletes := completes_of_canon lists _ hrest.symm
  obtain ⟨payload, post, hatom⟩ := hcompletes.atom (hds d List.mem_cons_self)
  simp only [canonAtom, List.append_assoc, List.cons_append] at hatom
  rcases hb with ⟨hdigit, hzero⟩ | ⟨hend, hcolon⟩
  · -- the numeral begins with a zero, so it is the numeral of zero
    obtain ⟨rfl, rfl⟩ := List.cons.inj hzero
    by_cases hlarge : 10 ≤ payload.length
    · have hhead := decimal_head_ne_zero hlarge
      obtain ⟨e, es, hes⟩ := List.exists_cons_of_ne_nil (decimal_ne_nil payload.length)
      rw [hes, List.cons_append] at hatom
      rw [hes, List.head?_cons, ← (List.cons.inj hatom).1] at hhead
      exact hhead rfl
    · rw [decimal_lt (by omega)] at hatom
      have hcolon := (List.cons.inj (List.cons.inj hatom).2).1
      rw [hcolon] at hdigit
      exact absurd hdigit (by decide)
  · have hrun : RunEnds (b :: rest) := by
      intro x hx
      obtain rfl : b = x := by simpa using hx
      exact hend
    obtain ⟨-, htail⟩ := @digits_append_inj (d :: ds') _ _ _ hds
      (isAsciiDigit_of_mem_decimal payload.length) hrun (runEnds_colon _) hatom
    exact hcolon (List.cons.inj htail).1

end Sexpr

end Assuan
