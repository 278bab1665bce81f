import Assuan.Sexpr.ParserAtom

/-!
# The parser accepts exactly the canonical encodings

Soundness carries an invariant of the loop: the bytes already passed are the
encoding of the open lists. Completeness follows the tree: from any state, the
rounds over `canon v` end with `v` delivered to the innermost open list.
-/

namespace Assuan

/-! ## §1  One round -/

/-- A value within the limits of a parser. -/
structure ParseLimits.Admits (limits : ParseLimits) (v : Sexpr) : Prop where
  atoms : v.AtomsWithin limits.maxAtom
  nodes : v.nodes ≤ limits.maxNodes
  depth : v.depth ≤ limits.maxDepth

section Round

variable {reserve : ℕ → ℕ → Bool} {input : Bytes} {limits : ParseLimits}

theorem countNode_eq_ok {nodes nodes' position : ℕ}
    (h : countNode nodes limits position = .ok nodes') :
    nodes < limits.maxNodes ∧ nodes' = nodes + 1 := by
  unfold countNode at h
  by_cases hn : nodes ≥ limits.maxNodes
  · simp [hn] at h
  · rw [if_neg hn] at h
    obtain ⟨-, rfl⟩ := checkedAdd_eq_some.mp (Outcome.index_eq_ok.mp h)
    exact ⟨by omega, rfl⟩

theorem countNode_ok {nodes position : ℕ} (h : nodes < limits.maxNodes) :
    countNode nodes limits position = .ok (nodes + 1) := by
  have hmax := limits.nodes_usize
  have hadd : checkedAdd usizeMax nodes 1 = some (nodes + 1) :=
    checkedAdd_eq_some.mpr ⟨by omega, rfl⟩
  rw [countNode, if_neg (by omega), hadd, Outcome.index_some]

theorem countNode_ne_panic (nodes position : ℕ) : countNode nodes limits position ≠ .panic := by
  by_cases h : nodes < limits.maxNodes
  · simp [countNode_ok h]
  · simp [countNode, Nat.not_lt.mp h]

theorem deliver_eq_ok {lists : List (List Sexpr)} {v : Sexpr} {position nodes : ℕ} {r : Round}
    (h : deliver reserve lists v position nodes = .ok r) :
    (lists = [] ∧ r = .finished v position) ∨
    ∃ parent outer, lists = parent :: outer ∧
      r = .again ⟨(parent ++ [v]) :: outer, position, nodes⟩ := by
  cases lists with
  | nil => exact Or.inl ⟨rfl, by simpa [deliver, eq_comm] using h⟩
  | cons parent outer =>
      refine Or.inr ⟨parent, outer, rfl, ?_⟩
      by_cases hr : reserve position parent.length
      · simpa [deliver, hr, eq_comm] using h
      · simp [deliver, hr] at h

theorem deliver_ne_panic {lists : List (List Sexpr)} {v : Sexpr} {position nodes : ℕ} :
    deliver reserve lists v position nodes ≠ .panic := by
  cases lists with
  | nil => simp [deliver]
  | cons parent outer =>
      by_cases hr : reserve position parent.length <;> simp [deliver, hr]

/-- The three ways in which a round succeeds. -/
theorem parseRound_cases {s : ParserState} {r : Round}
    (h : parseRound reserve input limits s = .ok r) :
    (input[s.position]? = some Sexpr.openParen ∧ s.lists.length < limits.maxDepth ∧
      s.nodes < limits.maxNodes ∧ r = .again ⟨[] :: s.lists, s.position + 1, s.nodes + 1⟩) ∨
    (∃ children lists, s.lists = children :: lists ∧
      input[s.position]? = some Sexpr.closeParen ∧
      deliver reserve lists (.list children) (s.position + 1) s.nodes = .ok r) ∨
    (∃ payload stop, input.drop s.position = Sexpr.canonAtom payload ++ input.drop stop ∧
      payload.length ≤ limits.maxAtom ∧ s.position < stop ∧ stop ≤ input.length ∧
      s.nodes < limits.maxNodes ∧
      deliver reserve s.lists (.atom payload) stop (s.nodes + 1) = .ok r) := by
  unfold parseRound at h
  obtain ⟨byte, hget, h⟩ := Outcome.bind_eq_ok.mp h
  rw [Outcome.okOr_eq_ok] at hget
  by_cases hopen : byte = Sexpr.openParen
  · subst hopen
    rw [if_pos rfl] at h
    by_cases hdepth : s.lists.length ≥ limits.maxDepth
    · simp [hdepth] at h
    rw [if_neg hdepth] at h
    obtain ⟨nodes, hcount, h⟩ := Outcome.bind_eq_ok.mp h
    obtain ⟨hnodes, rfl⟩ := countNode_eq_ok hcount
    by_cases hreserve : reserve s.position s.lists.length
    · rw [if_pos hreserve] at h
      obtain ⟨position, hadd, h⟩ := Outcome.bind_eq_ok.mp h
      obtain ⟨-, rfl⟩ := checkedAdd_eq_some.mp (Outcome.index_eq_ok.mp hadd)
      exact Or.inl ⟨hget, by omega, hnodes, by simpa [eq_comm] using h⟩
    · simp [hreserve] at h
  rw [if_neg hopen] at h
  by_cases hclose : byte = Sexpr.closeParen
  · subst hclose
    rw [if_pos rfl] at h
    cases hlists : s.lists with
    | nil => simp [hlists] at h
    | cons children lists =>
        simp only [hlists] at h
        obtain ⟨position, hadd, h⟩ := Outcome.bind_eq_ok.mp h
        obtain ⟨-, rfl⟩ := checkedAdd_eq_some.mp (Outcome.index_eq_ok.mp hadd)
        exact Or.inr (Or.inl ⟨children, lists, rfl, hget, h⟩)
  rw [if_neg hclose] at h
  by_cases hdigit : isAsciiDigit byte = true
  · rw [if_pos hdigit] at h
    obtain ⟨nodes, hcount, h⟩ := Outcome.bind_eq_ok.mp h
    obtain ⟨hnodes, rfl⟩ := countNode_eq_ok hcount
    obtain ⟨⟨payload, stop⟩, hatom, h⟩ := Outcome.bind_eq_ok.mp h
    obtain ⟨hdrop, hmax, hlt, hle⟩ := parseAtom_sound hget hdigit hatom
    exact Or.inr (Or.inr ⟨payload, stop, hdrop, hmax, hlt, hle, hnodes, h⟩)
  · simp [hdigit] at h

/-- Every round that goes on has moved. -/
theorem parseRound_advances {s s' : ParserState}
    (h : parseRound reserve input limits s = .ok (.again s')) :
    s.position < s'.position ∧ s.position < input.length := by
  have hlt : ∀ {b : UInt8}, input[s.position]? = some b → s.position < input.length := by
    intro b hb
    exact (List.getElem?_eq_some_iff.mp hb).1
  rcases parseRound_cases h with ⟨hget, -, -, hr⟩ | ⟨children, lists, -, hget, hr⟩ |
    ⟨payload, stop, -, -, hpos, hin, -, hr⟩
  · obtain rfl := Round.again.inj hr
    exact ⟨Nat.lt_succ_self _, hlt hget⟩
  · rcases deliver_eq_ok hr with ⟨-, hf⟩ | ⟨parent, outer, -, hr⟩
    · exact absurd hf (by simp)
    · obtain rfl := Round.again.inj hr
      exact ⟨Nat.lt_succ_self _, hlt hget⟩
  · rcases deliver_eq_ok hr with ⟨-, hf⟩ | ⟨parent, outer, -, hr⟩
    · exact absurd hf (by simp)
    · obtain rfl := Round.again.inj hr
      exact ⟨hpos, by omega⟩

theorem parseRound_ne_panic (husize : input.length ≤ usizeMax) (s : ParserState) :
    parseRound reserve input limits s ≠ .panic := by
  unfold parseRound
  cases hget : input[s.position]? with
  | none => simp
  | some byte =>
      obtain ⟨hlt, -⟩ := List.getElem?_eq_some_iff.mp hget
      have hadd : checkedAdd usizeMax s.position 1 = some (s.position + 1) :=
        checkedAdd_eq_some.mpr ⟨by omega, rfl⟩
      have hcount : countNode s.nodes limits s.position ≠ .panic := countNode_ne_panic _ _
      simp only [Outcome.okOr_some, Outcome.ok_bind, hadd, Outcome.index_some]
      by_cases hopen : byte = Sexpr.openParen
      · rw [if_pos hopen]
        by_cases hdepth : s.lists.length ≥ limits.maxDepth
        · simp [hdepth]
        rw [if_neg hdepth]
        apply Outcome.bind_ne_panic hcount
        intro nodes _
        by_cases hr : reserve s.position s.lists.length <;> simp [hr]
      rw [if_neg hopen]
      by_cases hclose : byte = Sexpr.closeParen
      · rw [if_pos hclose]
        cases s.lists with
        | nil => simp
        | cons children lists => exact deliver_ne_panic
      rw [if_neg hclose]
      by_cases hdigit : isAsciiDigit byte = true
      · rw [if_pos hdigit]
        apply Outcome.bind_ne_panic hcount
        intro nodes _
        apply Outcome.bind_ne_panic (parseAtom_ne_panic hlt husize)
        intro read _
        exact deliver_ne_panic
      · simp [hdigit]

/-- The fuel outlasts the input. -/
theorem parseLoop_ne_panic (husize : input.length ≤ usizeMax) :
    ∀ (fuel : ℕ) (s : ParserState), input.length - s.position < fuel →
      parseLoop reserve input limits fuel s ≠ .panic := by
  intro fuel
  induction fuel with
  | zero =>
      intro s h
      omega
  | succ fuel ih =>
      intro s h
      rw [parseLoop]
      apply Outcome.bind_ne_panic (parseRound_ne_panic husize s)
      intro r hround
      cases r with
      | again s' =>
          obtain ⟨hmove, hin⟩ := parseRound_advances hround
          exact ih s' (by omega)
      | finished v n => simp

end Round

/-! ## §2  Soundness: what the loop has passed -/

section Soundness

open Sexpr

/-- The encoding of the open lists, outermost first, each without its end. -/
def openedBytes : List (List Sexpr) → Bytes
  | [] => []
  | children :: outer => openedBytes outer ++ openParen :: canonList children

def openedNodes : List (List Sexpr) → ℕ
  | [] => 0
  | children :: outer => openedNodes outer + 1 + nodesList children

/-- The complete children of the open lists are within the limits, counted from
the root. -/
def OpenedWithin (limits : ParseLimits) : List (List Sexpr) → Prop
  | [] => True
  | children :: outer => OpenedWithin limits outer ∧
      outer.length + 1 + depthList children ≤ limits.maxDepth ∧
      AtomsWithinList limits.maxAtom children

/-- The loop's invariant. -/
structure Passed (input : Bytes) (limits : ParseLimits) (s : ParserState) : Prop where
  take : input.take s.position = openedBytes s.lists
  within : OpenedWithin limits s.lists
  count : s.nodes = openedNodes s.lists
  bound : s.nodes ≤ limits.maxNodes

variable {reserve : ℕ → ℕ → Bool} {input : Bytes} {limits : ParseLimits}

theorem take_succ_of_getElem? {position : ℕ} {b : UInt8} (h : input[position]? = some b) :
    input.take (position + 1) = input.take position ++ [b] := by
  rw [List.take_add_one, h]
  rfl

/-- A value delivered after the open lists keeps the invariant, or is the result. -/
theorem Passed.deliver {lists : List (List Sexpr)} {v : Sexpr} {position nodes : ℕ} {r : Round}
    (hwithin : OpenedWithin limits lists)
    (htake : input.take position = openedBytes lists ++ canon v)
    (hcount : nodes = openedNodes lists + v.nodes) (hbound : nodes ≤ limits.maxNodes)
    (hdepth : lists.length + v.depth ≤ limits.maxDepth)
    (hatoms : v.AtomsWithin limits.maxAtom)
    (h : Assuan.deliver reserve lists v position nodes = .ok r) :
    (∃ s, r = .again s ∧ Passed input limits s) ∨
    (r = .finished v position ∧ input.take position = canon v ∧ limits.Admits v) := by
  rcases deliver_eq_ok h with ⟨rfl, rfl⟩ | ⟨parent, outer, rfl, rfl⟩
  · refine Or.inr ⟨rfl, htake, hatoms, ?_, ?_⟩
    · simp only [openedNodes] at hcount
      omega
    · simp only [List.length_nil] at hdepth
      omega
  · refine Or.inl ⟨_, rfl, ?_, ?_, ?_, hbound⟩
    · rw [htake]
      simp only [openedBytes, canonList_snoc, List.append_assoc, List.cons_append]
    · obtain ⟨houter, hparent, hparentAtoms⟩ := hwithin
      refine ⟨houter, ?_, (atomsWithinList_snoc _ _ _).mpr ⟨hparentAtoms, hatoms⟩⟩
      rw [depthList_snoc]
      simp only [List.length_cons] at hdepth
      omega
    · simp only [openedNodes, nodesList_snoc] at hcount ⊢
      omega

theorem Passed.round {s : ParserState} {r : Round} (hs : Passed input limits s)
    (h : parseRound reserve input limits s = .ok r) :
    (∃ s', r = .again s' ∧ Passed input limits s') ∨
    ∃ v position, r = .finished v position ∧ position ≤ input.length ∧
      input.take position = canon v ∧ limits.Admits v := by
  obtain ⟨htake, hwithin, hcount, hbound⟩ := hs
  rcases parseRound_cases h with ⟨hget, hdepth, hnodes, rfl⟩ | ⟨children, lists, hlists, hget, hr⟩ |
    ⟨payload, stop, hdrop, hmax, hlt, hin, hnodes, hr⟩
  · -- an opening parenthesis
    refine Or.inl ⟨_, rfl, ?_, ⟨hwithin, ?_, trivial⟩, ?_, ?_⟩
    · rw [take_succ_of_getElem? hget, htake]
      simp only [openedBytes, canonList]
    · simp only [depthList]
      omega
    · simp only [openedNodes, nodesList]
      omega
    · exact hnodes
  · -- a closing parenthesis completes the innermost list
    rw [hlists] at htake hwithin hcount
    obtain ⟨houter, hdepth, hatoms⟩ := hwithin
    have hnext : input.take (s.position + 1) = openedBytes lists ++ canon (.list children) := by
      rw [take_succ_of_getElem? hget, htake]
      simp only [openedBytes, canon, List.append_assoc, List.cons_append]
    have hnodes : s.nodes = openedNodes lists + nodes (.list children) := by
      simp only [openedNodes, Sexpr.nodes] at hcount ⊢
      omega
    have hlevel : lists.length + depth (.list children) ≤ limits.maxDepth := by
      simp only [Sexpr.depth]
      omega
    rcases Passed.deliver houter hnext hnodes hbound hlevel hatoms hr with hagain | ⟨hf, hend, hok⟩
    · exact Or.inl hagain
    · have hlt := (List.getElem?_eq_some_iff.mp hget).1
      exact Or.inr ⟨_, _, hf, hlt, hend, hok⟩
  · -- an atom
    have hnext : input.take stop = openedBytes s.lists ++ canon (.atom payload) := by
      have hlen : (canonAtom payload).length = stop - s.position := by
        have := congrArg List.length hdrop
        simp only [List.length_drop, List.length_append] at this
        omega
      have hsplit : stop = s.position + (stop - s.position) := by omega
      rw [hsplit, List.take_add, htake, hdrop, ← hlen, List.take_left, canon]
    have hlevel : s.lists.length + depth (.atom payload) ≤ limits.maxDepth := by
      cases hlists : s.lists with
      | nil => exact Nat.zero_le _
      | cons children lists =>
          rw [hlists] at hwithin
          have := hwithin.2.1
          simp only [Sexpr.depth, List.length_cons]
          omega
    have hnodes' : s.nodes + 1 = openedNodes s.lists + nodes (.atom payload) := by
      simp only [Sexpr.nodes]
      omega
    rcases Passed.deliver hwithin hnext hnodes' hnodes hlevel hmax hr with hagain | ⟨hf, hend, hok⟩
    · exact Or.inl hagain
    · exact Or.inr ⟨_, _, hf, hin, hend, hok⟩

theorem Passed.loop {v : Sexpr} {n : ℕ} :
    ∀ (fuel : ℕ) (s : ParserState), Passed input limits s →
      parseLoop reserve input limits fuel s = .ok (v, n) →
      n ≤ input.length ∧ input.take n = canon v ∧ limits.Admits v := by
  intro fuel
  induction fuel with
  | zero =>
      intro s _ h
      exact absurd h (by simp [parseLoop])
  | succ fuel ih =>
      intro s hs h
      obtain ⟨r, hround, h⟩ := Outcome.bind_eq_ok.mp h
      rcases hs.round hround with ⟨s', rfl, hs'⟩ | ⟨v', position, rfl, hin, htake, hok⟩
      · exact ih s' hs' h
      · obtain ⟨rfl, rfl⟩ : v' = v ∧ position = n := by simpa using h
        exact ⟨hin, htake, hok⟩

/-- What `parse_prefix` returns is the value of the bytes it consumed. -/
theorem parsePrefix_sound {v : Sexpr} {n : ℕ}
    (h : parsePrefix reserve input limits = .ok (v, n)) :
    input.length ≤ limits.maxInput ∧ n ≤ input.length ∧ input.take n = canon v ∧
      limits.Admits v := by
  unfold parsePrefix at h
  by_cases hmax : input.length > limits.maxInput
  · simp [hmax] at h
  rw [if_neg hmax] at h
  have hstart : Passed input limits ⟨[], 0, 0⟩ := ⟨rfl, trivial, rfl, Nat.zero_le _⟩
  exact ⟨by omega, hstart.loop _ _ h⟩

end Soundness

/-! ## §3  Completeness: the rounds over an encoding -/

section Completeness

open Sexpr

mutual

/-- The rounds the loop makes over `canon v`. -/
def rounds : Sexpr → ℕ
  | .atom _ => 1
  | .list children => 1 + roundsList children + 1

def roundsList : List Sexpr → ℕ
  | [] => 0
  | child :: children => rounds child + roundsList children

end

mutual

theorem rounds_le (v : Sexpr) : rounds v ≤ (canon v).length := by
  cases v with
  | atom bytes =>
      simp only [rounds, canon, canonAtom, List.length_append, List.length_cons]
      omega
  | list children =>
      have := roundsList_le children
      simp only [rounds, canon, List.length_cons, List.length_append, List.length_nil]
      omega

theorem roundsList_le (children : List Sexpr) :
    roundsList children ≤ (canonList children).length := by
  cases children with
  | nil => exact Nat.zero_le _
  | cons child children =>
      have hchild := rounds_le child
      have hrest := roundsList_le children
      simp only [roundsList, canonList, List.length_append]
      omega

end

variable {reserve : ℕ → ℕ → Bool} {input : Bytes} {limits : ParseLimits}

/-- What the loop does with the end of a round. -/
def resume (reserve : ℕ → ℕ → Bool) (input : Bytes) (limits : ParseLimits) (fuel : ℕ) :
    Round → Outcome ParseError (Sexpr × ℕ)
  | .again s => parseLoop reserve input limits fuel s
  | .finished v n => .ok (v, n)

theorem parseLoop_succ (fuel : ℕ) (s : ParserState) :
    parseLoop reserve input limits (fuel + 1) s =
      parseRound reserve input limits s >>= resume reserve input limits fuel := by
  rw [parseLoop]
  cases parseRound reserve input limits s with
  | ok r => cases r <;> rfl
  | err e => rfl
  | panic => rfl
  | dropped => rfl

theorem getElem?_of_drop {position : ℕ} {b : UInt8} {rest : Bytes}
    (h : input.drop position = b :: rest) :
    input[position]? = some b ∧ input.drop (position + 1) = rest := by
  constructor
  · rw [← List.head?_drop, h, List.head?_cons]
  · rw [← List.drop_drop, h]
    rfl

theorem parseRound_open {lists : List (List Sexpr)} {position nodes : ℕ} {rest : Bytes}
    (hreserve : ∀ p n, reserve p n = true) (husize : input.length ≤ usizeMax)
    (hdrop : input.drop position = openParen :: rest) (hdepth : lists.length < limits.maxDepth)
    (hnodes : nodes < limits.maxNodes) :
    parseRound reserve input limits ⟨lists, position, nodes⟩ =
      .ok (.again ⟨[] :: lists, position + 1, nodes + 1⟩) := by
  obtain ⟨hget, -⟩ := getElem?_of_drop hdrop
  have hlt := (List.getElem?_eq_some_iff.mp hget).1
  have hadd : checkedAdd usizeMax position 1 = some (position + 1) :=
    checkedAdd_eq_some.mpr ⟨by omega, rfl⟩
  unfold parseRound
  simp only [hget, Outcome.okOr_some, Outcome.ok_bind, if_true]
  rw [if_neg (by omega), countNode_ok hnodes, Outcome.ok_bind, if_pos (hreserve _ _), hadd]
  rfl

theorem parseRound_close {children : List Sexpr} {lists : List (List Sexpr)}
    {position nodes : ℕ} {rest : Bytes} (husize : input.length ≤ usizeMax)
    (hdrop : input.drop position = closeParen :: rest) :
    parseRound reserve input limits ⟨children :: lists, position, nodes⟩ =
      deliver reserve lists (.list children) (position + 1) nodes := by
  obtain ⟨hget, -⟩ := getElem?_of_drop hdrop
  have hlt := (List.getElem?_eq_some_iff.mp hget).1
  have hadd : checkedAdd usizeMax position 1 = some (position + 1) :=
    checkedAdd_eq_some.mpr ⟨by omega, rfl⟩
  unfold parseRound
  simp only [hget, Outcome.okOr_some, Outcome.ok_bind, if_true]
  rw [if_neg (by decide), hadd]
  rfl

theorem parseRound_atom {payload : Bytes} {lists : List (List Sexpr)}
    {position nodes : ℕ} {rest : Bytes} (husize : input.length ≤ usizeMax)
    (hdrop : input.drop position = canonAtom payload ++ rest)
    (hatom : payload.length ≤ limits.maxAtom) (hnodes : nodes < limits.maxNodes) :
    parseRound reserve input limits ⟨lists, position, nodes⟩ =
      deliver reserve lists (.atom payload) (position + (canonAtom payload).length)
        (nodes + 1) := by
  obtain ⟨d, ds, hds⟩ := List.exists_cons_of_ne_nil (decimal_ne_nil payload.length)
  have hd : isAsciiDigit d = true := by
    apply isAsciiDigit_of_mem_decimal payload.length
    rw [hds]
    exact List.mem_cons_self
  have hget : input[position]? = some d := by
    rw [← List.head?_drop, hdrop, canonAtom, hds]
    rfl
  have hopen : d ≠ openParen := by
    rintro rfl
    exact absurd hd (by decide)
  have hclose : d ≠ closeParen := by
    rintro rfl
    exact absurd hd (by decide)
  unfold parseRound
  simp only [hget, Outcome.okOr_some, Outcome.ok_bind]
  rw [if_neg hopen, if_neg hclose, if_pos hd, countNode_ok hnodes, Outcome.ok_bind,
    parseAtom_complete hdrop husize hatom]
  rfl

mutual

/-- The rounds over `canon v` end with `v` delivered. -/
theorem parseLoop_canon (hreserve : ∀ p n, reserve p n = true)
    (husize : input.length ≤ usizeMax) (v : Sexpr) (lists : List (List Sexpr))
    (position nodes fuel : ℕ) (post : Bytes) (hdrop : input.drop position = canon v ++ post)
    (hnodes : nodes + v.nodes ≤ limits.maxNodes)
    (hdepth : lists.length + v.depth ≤ limits.maxDepth)
    (hatoms : v.AtomsWithin limits.maxAtom) :
    parseLoop reserve input limits (fuel + rounds v) ⟨lists, position, nodes⟩ =
      deliver reserve lists v (position + (canon v).length) (nodes + v.nodes) >>=
        resume reserve input limits fuel := by
  cases v with
  | atom payload =>
      rw [canon] at hdrop
      simp only [Sexpr.nodes] at hnodes
      rw [rounds, parseLoop_succ, parseRound_atom husize hdrop hatoms (by omega)]
      simp only [canon, Sexpr.nodes]
  | list children =>
      simp only [canon, List.cons_append, List.append_assoc] at hdrop
      simp only [Sexpr.nodes] at hnodes
      simp only [Sexpr.depth] at hdepth
      obtain ⟨-, hbody⟩ := getElem?_of_drop hdrop
      have hrest : input.drop (position + 1 + (canonList children).length) =
          closeParen :: post := by
        rw [← List.drop_drop, hbody, List.drop_left]
        rfl
      have hfuel : fuel + rounds (.list children) = fuel + 1 + roundsList children + 1 := by
        simp only [rounds]
        omega
      -- one round opens the list, its children follow, one round closes it
      rw [hfuel, parseLoop_succ,
        parseRound_open hreserve husize hdrop (by omega) (by omega), Outcome.ok_bind, resume,
        parseLoop_canonList hreserve husize children [] lists (position + 1) (nodes + 1)
          (fuel + 1) (closeParen :: post) hbody (by omega) (by omega) hatoms,
        parseLoop_succ, parseRound_close husize hrest]
      simp only [canon, Sexpr.nodes, List.nil_append, List.length_cons, List.length_append,
        List.length_nil]
      congr 2
      · omega
      · omega

/-- The rounds over the children of an open list append them to it. -/
theorem parseLoop_canonList (hreserve : ∀ p n, reserve p n = true)
    (husize : input.length ≤ usizeMax) (children done : List Sexpr)
    (outer : List (List Sexpr)) (position nodes fuel : ℕ) (post : Bytes)
    (hdrop : input.drop position = canonList children ++ post)
    (hnodes : nodes + nodesList children ≤ limits.maxNodes)
    (hdepth : outer.length + 1 + depthList children ≤ limits.maxDepth)
    (hatoms : AtomsWithinList limits.maxAtom children) :
    parseLoop reserve input limits (fuel + roundsList children) ⟨done :: outer, position, nodes⟩ =
      parseLoop reserve input limits fuel
        ⟨(done ++ children) :: outer, position + (canonList children).length,
          nodes + nodesList children⟩ := by
  cases children with
  | nil => simp only [roundsList, canonList, nodesList, List.length_nil, List.append_nil,
      Nat.add_zero]
  | cons child children =>
      simp only [canonList, List.append_assoc] at hdrop
      simp only [nodesList] at hnodes
      simp only [depthList] at hdepth
      obtain ⟨hchild, hchildren⟩ := hatoms
      have hrest : input.drop (position + (canon child).length) =
          canonList children ++ post := by
        rw [← List.drop_drop, hdrop, List.drop_left]
      have hfuel : fuel + roundsList (child :: children) =
          fuel + roundsList children + rounds child := by
        simp only [roundsList]
        omega
      -- the first child is delivered to the open list, and the loop goes on
      rw [hfuel, parseLoop_canon hreserve husize child (done :: outer) position nodes
        (fuel + roundsList children) (canonList children ++ post) hdrop (by omega)
        (by simp only [List.length_cons]; omega) hchild]
      simp only [deliver, hreserve, if_true, Outcome.ok_bind, resume]
      rw [parseLoop_canonList hreserve husize children (done ++ [child]) outer _ _ fuel post hrest
        (by omega) (by omega) hchildren]
      simp only [canonList, nodesList, List.length_append, List.append_assoc, List.singleton_append,
        Nat.add_assoc]

end

/-- An encoding at the start of the input is parsed, whatever follows it. -/
theorem parsePrefix_complete (hreserve : ∀ p n, reserve p n = true) {v : Sexpr} {post : Bytes}
    (hinput : input = canon v ++ post) (hmax : input.length ≤ limits.maxInput)
    (hv : limits.Admits v) :
    parsePrefix reserve input limits = .ok (v, (canon v).length) := by
  have husize : input.length ≤ usizeMax := Nat.le_trans hmax limits.input_usize
  have hlen : (canon v).length ≤ input.length := by
    rw [hinput, List.length_append]
    omega
  have hrounds := rounds_le v
  obtain ⟨fuel, hfuel⟩ : ∃ fuel, input.length + 1 = fuel + rounds v :=
    ⟨input.length + 1 - rounds v, by omega⟩
  have hnodes := hv.nodes
  have hdepth := hv.depth
  unfold parsePrefix
  rw [if_neg (by omega), hfuel, parseLoop_canon hreserve husize v [] 0 0 fuel post hinput
    (by omega) (by simpa using hdepth) hv.atoms]
  simp only [deliver, Outcome.ok_bind, resume, Nat.zero_add]

end Completeness

/-! ## §4  The language of the parser -/

section Language

variable {reserve : ℕ → ℕ → Bool}

theorem parsePrefix_ne_panic (input : Bytes) (limits : ParseLimits) :
    parsePrefix reserve input limits ≠ .panic := by
  unfold parsePrefix
  by_cases hmax : input.length > limits.maxInput
  · simp [hmax]
  · rw [if_neg hmax]
    have husize : input.length ≤ usizeMax := by
      have := limits.input_usize
      omega
    exact parseLoop_ne_panic husize _ _ (by simp only; omega)

/-- **The accepted language.** `parse_complete` returns `v` exactly on the
canonical encoding of `v`, when the input and `v` are within the limits; no
other tree within the limits has that encoding; and no input makes it panic: no
index leaves the input and no sum overflows. -/
theorem parseComplete_iff_canon (hreserve : ∀ p n, reserve p n = true) (input : Bytes)
    (limits : ParseLimits) :
    (∀ v, parseComplete reserve input limits = .ok v ↔
      input = v.canon ∧ input.length ≤ limits.maxInput ∧
        v.AtomsWithin limits.maxAtom ∧ v.nodes ≤ limits.maxNodes ∧
        v.depth ≤ limits.maxDepth) ∧
    (∀ v w, parseComplete reserve input limits = .ok v → input = w.canon →
      limits.Admits w → w = v) ∧
    parseComplete reserve input limits ≠ .panic := by
  have hcomplete : ∀ v, input = v.canon → input.length ≤ limits.maxInput → limits.Admits v →
      parseComplete reserve input limits = .ok v := by
    intro v hinput hmax hadmits
    have hstart := parsePrefix_complete hreserve (hinput.trans (List.append_nil _).symm) hmax
      hadmits
    unfold parseComplete
    rw [hstart, Outcome.ok_bind, hinput]
    simp
  have hsound : ∀ v, parseComplete reserve input limits = .ok v →
      input = v.canon ∧ input.length ≤ limits.maxInput ∧ limits.Admits v := by
    intro v h
    unfold parseComplete at h
    obtain ⟨⟨value, consumed⟩, hstart, h⟩ := Outcome.bind_eq_ok.mp h
    obtain ⟨hmax, -, htake, hadmits⟩ := parsePrefix_sound hstart
    by_cases hall : consumed = input.length
    · obtain rfl : value = v := by simpa [hall] using h
      rw [hall, List.take_length] at htake
      exact ⟨htake, hmax, hadmits⟩
    · simp [hall] at h
  refine ⟨fun v => ⟨fun h => ?_, ?_⟩, fun v w h hw hadmits => ?_, ?_⟩
  · obtain ⟨hinput, hmax, hadmits⟩ := hsound v h
    exact ⟨hinput, hmax, hadmits.atoms, hadmits.nodes, hadmits.depth⟩
  · rintro ⟨hinput, hmax, hatoms, hnodes, hdepth⟩
    exact hcomplete v hinput hmax ⟨hatoms, hnodes, hdepth⟩
  · obtain ⟨-, hmax, -⟩ := hsound v h
    have hboth := (hcomplete w hw hmax hadmits).symm.trans h
    exact Outcome.ok.inj hboth
  · apply Outcome.bind_ne_panic (parsePrefix_ne_panic _ _)
    intro read _
    by_cases hall : read.2 = input.length <;> simp [hall]

/-- `(1:a0:)` under the default limits. -/
theorem parseComplete_iff_canon_pair :
    parseComplete (fun _ _ => true) [40, 49, 58, 97, 48, 58, 41] .default =
      .ok (.list [.atom [97], .atom []]) := by
  have hdigits : decimal 1 = [49] ∧ decimal 0 = [48] :=
    ⟨decimal_lt (by decide), decimal_lt (by decide)⟩
  have hcanon : Sexpr.canon (.list [.atom [97], .atom []]) = [40, 49, 58, 97, 48, 58, 41] := by
    simp only [Sexpr.canon, Sexpr.canonList, Sexpr.canonAtom, List.length_cons, List.length_nil,
      hdigits.1, hdigits.2]
    rfl
  have hatoms : Sexpr.AtomsWithin ParseLimits.default.maxAtom
      (.list [.atom [97], .atom []]) := by
    simp [Sexpr.AtomsWithin, Sexpr.AtomsWithinList, ParseLimits.default]
  exact ((parseComplete_iff_canon (fun _ _ => rfl) _ _).1 _).mpr
    ⟨hcanon.symm, by decide, hatoms, by decide, by decide⟩

end Language

end Assuan
