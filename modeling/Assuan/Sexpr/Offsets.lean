import Assuan.Sexpr.Prefixes

/-!
# The offsets of parse errors

An error points at the first byte that no encoding can have at that place, or at
the end of the input when more of it could still complete an expression. The
limits are reported at the byte, or at the atom, that exceeds them.
-/

namespace Assuan

open Sexpr

/-! ## §1  Errors of an atom -/

section Atom

variable {input : Bytes} {limits : ParseLimits} {start : ℕ}

/-- How the digit loop fails: at a digit after a leading zero, or at the digit
that makes the length overflow. -/
theorem lengthLoop_err (hstart : start < input.length) :
    ∀ (rest : Bytes) (position length : ℕ) (e : ParseError), start ≤ position →
      length ≤ usizeMax → position + rest.length ≤ usizeMax →
      lengthLoop input start rest position length = .err e →
      ∃ ds b tail, rest = ds ++ b :: tail ∧ (∀ d ∈ ds, isAsciiDigit d = true) ∧
        isAsciiDigit b = true ∧ decimalValue length ds ≤ usizeMax ∧
        (start + 1 < position + ds.length → ds ≠ [] → input[start]? ≠ some (digitByte 0)) ∧
        ((e = .at_ .invalidLength (position + ds.length) ∧ start < position + ds.length ∧
            input[start]? = some (digitByte 0)) ∨
          e = .at_ .lengthOverflow (position + ds.length)) := by
  intro rest
  induction rest with
  | nil =>
      intro position length e _ _ _ h
      exact absurd h (by simp [lengthLoop])
  | cons b rest ih =>
      intro position length e hpos hlen hroom h
      simp only [List.length_cons] at hroom
      by_cases hb : isAsciiDigit b = true
      · rw [lengthLoop_digit hb hstart] at h
        by_cases hz : position > start ∧ input[start]? = some (digitByte 0)
        · rw [if_pos hz] at h
          obtain rfl := Outcome.err.inj h
          exact ⟨[], b, rest, rfl, by simp, hb, hlen, fun _ hne => absurd rfl hne,
            Or.inl ⟨rfl, hz.1, hz.2⟩⟩
        rw [if_neg hz] at h
        have hadd : checkedAdd usizeMax position 1 = some (position + 1) :=
          checkedAdd_eq_some.mpr ⟨by omega, rfl⟩
        rw [hadd] at h
        cases hpush : checkedPush usizeMax length b with
        | none =>
            rw [hpush] at h
            obtain rfl := Outcome.err.inj h
            exact ⟨[], b, rest, rfl, by simp, hb, hlen, fun _ hne => absurd rfl hne, Or.inr rfl⟩
        | some length' =>
            rw [hpush] at h
            obtain ⟨hle, rfl⟩ := checkedPush_eq_some.mp hpush
            obtain ⟨ds, c, tail, rfl, hds, hc, hvalue, hzero, hkind⟩ :=
              ih (position + 1) _ e (by omega) hle (by omega) h
            have hplace : position + 1 + ds.length = position + (b :: ds).length := by
              simp only [List.length_cons]
              omega
            rw [hplace] at hzero hkind
            refine ⟨b :: ds, c, tail, rfl, ?_, hc, hvalue, fun hlong _ hfirst => ?_, hkind⟩
            · intro d hd
              rcases List.mem_cons.mp hd with rfl | hd
              · exact hb
              · exact hds d hd
            · by_cases hp : position > start
              · exact hz ⟨hp, hfirst⟩
              · have hne : ds ≠ [] := by
                  rintro rfl
                  simp only [List.length_cons, List.length_nil] at hlong
                  omega
                exact hzero hlong hne hfirst
      · rw [Bool.not_eq_true] at hb
        rw [lengthLoop, if_pos hb] at h
        exact absurd h (by simp)

/-- What an error of some kind at some offset says about the input. -/
structure ExactAt (input : Bytes) (kind : ParseErrorKind) (k : ℕ) : Prop where
  le : k ≤ input.length
  viable : Viable (input.take k)
  eof : kind = .unexpectedEof → k = input.length
  unrecoverable : kind = .unexpectedToken ∨ kind = .invalidLength ∨ kind = .expectedColon →
    k < input.length ∧ Dead (input.take (k + 1))
  untrailed : kind ≠ .trailingData

/-- An error that blames a limit. -/
theorem ExactAt.limit {kind : ParseErrorKind} {k : ℕ} (hle : k ≤ input.length)
    (hviable : Viable (input.take k))
    (hkind : kind = .atomLimit ∨ kind = .nodeLimit ∨ kind = .depthLimit ∨
      kind = .lengthOverflow) : ExactAt input kind k := by
  refine ⟨hle, hviable, fun h => ?_, fun h => ?_, fun h => ?_⟩
  all_goals rcases hkind with rfl | rfl | rfl | rfl <;> exact absurd h (by decide)

theorem ExactAt.ended {k : ℕ} (hk : k = input.length) (hviable : Viable input) :
    ExactAt input .unexpectedEof k := by
  subst hk
  refine ⟨Nat.le_refl _, by rwa [List.take_length], fun _ => rfl, fun h => ?_, by decide⟩
  exact absurd h (by decide)

theorem ExactAt.refused {kind : ParseErrorKind} {k : ℕ} (hlt : k < input.length)
    (hviable : Viable (input.take k)) (hdead : Dead (input.take (k + 1)))
    (hkind : kind = .unexpectedToken ∨ kind = .invalidLength ∨ kind = .expectedColon) :
    ExactAt input kind k := by
  refine ⟨Nat.le_of_lt hlt, hviable, fun h => ?_, fun _ => ⟨hlt, hdead⟩, fun h => ?_⟩
  all_goals rcases hkind with rfl | rfl | rfl <;> exact absurd h (by decide)

variable {lists : List (List Sexpr)}

/-- A numeral begins the encoding of an atom of that length. -/
theorem viable_digits (hlists : OpenedWithin limits lists) {ds : Bytes}
    (hcanonical : CanonicalDigits ds) (hvalue : decimalValue 0 ds ≤ usizeMax) :
    Viable (openedBytes lists ++ ds) := by
  have hatom : (Sexpr.atom (List.replicate (decimalValue 0 ds) 0)).AtomsWithin usizeMax := by
    simpa only [AtomsWithin, List.length_replicate] using hvalue
  refine viable_opened hlists hatom ?_
  rw [canon, canonAtom, List.length_replicate, decimal_decimalValue hcanonical]
  exact List.prefix_append _ _

/-- A payload that is cut short can be completed. -/
theorem viable_payload (hlists : OpenedWithin limits lists) {ds part : Bytes}
    (hcanonical : CanonicalDigits ds) (hvalue : decimalValue 0 ds ≤ usizeMax)
    (hpart : part.length ≤ decimalValue 0 ds) :
    Viable (openedBytes lists ++ (ds ++ colon :: part)) := by
  have hlen : (part ++ List.replicate (decimalValue 0 ds - part.length) 0).length =
      decimalValue 0 ds := by
    rw [List.length_append, List.length_replicate]
    omega
  have hatom : (Sexpr.atom
      (part ++ List.replicate (decimalValue 0 ds - part.length) 0)).AtomsWithin usizeMax := by
    rw [AtomsWithin, hlen]
    exact hvalue
  refine viable_opened hlists hatom ?_
  rw [canon, canonAtom, hlen, decimal_decimalValue hcanonical]
  refine ⟨List.replicate (decimalValue 0 ds - part.length) 0, ?_⟩
  simp only [List.append_assoc, List.cons_append]

theorem viable_lists (hlists : OpenedWithin limits lists) : Viable (openedBytes lists) := by
  have hnil : Viable (openedBytes lists ++ []) :=
    @viable_opened _ _ (.atom []) _ hlists (Nat.zero_le _) List.nil_prefix
  rwa [List.append_nil] at hnil

theorem take_drop_append {ds tail : Bytes} (htake : input.take start = openedBytes lists)
    (hsplit : input.drop start = ds ++ tail) :
    input.take (start + ds.length) = openedBytes lists ++ ds := by
  rw [List.take_add, htake, hsplit, List.take_left]

/-- The errors of the digit loop. -/
theorem lengthLoop_exact (htake : input.take start = openedBytes lists)
    (hlists : OpenedWithin limits lists) (hstart : start < input.length)
    (husize : input.length ≤ usizeMax) {e : ParseError}
    (h : lengthLoop input start (input.drop start) start 0 = .err e) :
    ∃ kind k, e = .at_ kind k ∧ ExactAt input kind k := by
  obtain ⟨ds, b, tail, hsplit, hds, hb, hvalue, hzero, hkind⟩ :=
    lengthLoop_err hstart _ _ _ _ (Nat.le_refl _) (Nat.zero_le _)
      (by rw [List.length_drop]; omega) h
  have hlt : start + ds.length < input.length := by
    have := congrArg List.length hsplit
    simp only [List.length_drop, List.length_append, List.length_cons] at this
    omega
  have hpassed := take_drop_append htake hsplit
  have hfirst : ds ≠ [] → input[start]? = ds.head? := by
    intro hne
    rw [← List.head?_drop, hsplit, List.head?_append_of_ne_nil _ hne]
  have hviable : Viable (input.take (start + ds.length)) := by
    rw [hpassed]
    by_cases hne : ds = []
    · rw [hne, List.append_nil]
      exact viable_lists hlists
    · refine viable_digits hlists ⟨hne, hds, fun htwo => ?_⟩ hvalue
      rw [← hfirst hne]
      exact hzero (by omega) hne
  rcases hkind with ⟨rfl, hpos, hleading⟩ | rfl
  · refine ⟨_, _, rfl, .refused hlt hviable ?_ (by simp)⟩
    have hne : ds ≠ [] := by
      rintro rfl
      simp at hpos
    -- the zero stands alone, as the second digit is refused
    have hsingle : ds = [digitByte 0] := by
      obtain ⟨d, rest, rfl⟩ := List.exists_cons_of_ne_nil hne
      cases rest with
      | nil =>
          rw [hfirst hne, List.head?_cons] at hleading
          rw [Option.some.inj hleading]
      | cons c rest =>
          exact absurd hleading (hzero (by simp only [List.length_cons]; omega) hne)
    have hnext : input.take (start + ds.length + 1) = openedBytes lists ++ (ds ++ [b]) := by
      have hsplit' : input.drop start = (ds ++ [b]) ++ tail := by
        rw [hsplit, List.append_assoc, List.singleton_append]
      have := take_drop_append htake hsplit'
      rwa [List.length_append, List.length_singleton, ← Nat.add_assoc] at this
    rw [hnext]
    exact dead_atom hne hds (Or.inl ⟨hb, hsingle⟩)
  · exact ⟨_, _, rfl, .limit (Nat.le_of_lt hlt) hviable (by simp)⟩

/-- The errors after the digits. -/
theorem atomTail_exact (htake : input.take start = openedBytes lists)
    (hlists : OpenedWithin limits lists) (husize : input.length ≤ usizeMax) {ds tail : Bytes}
    (hsplit : input.drop start = ds ++ tail) (hcanonical : CanonicalDigits ds)
    (htail : RunEnds tail) (hvalue : decimalValue 0 ds ≤ usizeMax) {e : ParseError}
    (h : atomTail input limits start (start + ds.length) (decimalValue 0 ds) = .err e) :
    ∃ kind k, e = .at_ kind k ∧ ExactAt input kind k := by
  have hpassed := take_drop_append htake hsplit
  have hds : 0 < ds.length := List.length_pos_iff.mpr hcanonical.1
  have hlen : input.length - start = ds.length + tail.length := by
    rw [← List.length_drop, hsplit, List.length_append]
  have hstart : Viable (input.take start) := by
    rw [htake]
    exact viable_lists hlists
  have hnumeral : Viable (input.take (start + ds.length)) := by
    rw [hpassed]
    exact viable_digits hlists hcanonical hvalue
  have hat : input[start + ds.length]? = tail.head? := by
    rw [← List.head?_drop, ← List.drop_drop, hsplit, List.drop_left]
  unfold atomTail expectColon at h
  rw [hat] at h
  cases tail with
  | nil =>
      obtain rfl := Outcome.err.inj h
      have hend : start + ds.length = input.length := by
        simp only [List.length_nil] at hlen
        omega
      refine ⟨_, _, rfl, .ended hend ?_⟩
      rwa [hend, List.take_length] at hnumeral
  | cons b tail =>
      simp only [List.length_cons] at hlen
      simp only [List.head?_cons] at h
      by_cases hcolon : b = colon
      · subst hcolon
        have hadd : checkedAdd usizeMax (start + ds.length) 1 = some (start + ds.length + 1) :=
          checkedAdd_eq_some.mpr ⟨by omega, rfl⟩
        rw [if_pos rfl, hadd, Outcome.index_some, Outcome.ok_bind] at h
        by_cases hlimit : decimalValue 0 ds > limits.maxAtom
        · rw [if_pos hlimit] at h
          obtain rfl := Outcome.err.inj h
          exact ⟨_, _, rfl, .limit (by omega) hstart (by simp)⟩
        rw [if_neg hlimit] at h
        cases hstop : checkedAdd usizeMax (start + ds.length + 1) (decimalValue 0 ds) with
        | none =>
            rw [hstop] at h
            obtain rfl := Outcome.err.inj h
            exact ⟨_, _, rfl, .limit (by omega) hstart (by simp)⟩
        | some stop =>
            obtain ⟨-, rfl⟩ := checkedAdd_eq_some.mp hstop
            rw [hstop, Outcome.okOr_some, Outcome.ok_bind] at h
            by_cases hin : start + ds.length + 1 + decimalValue 0 ds ≤ input.length
            · rw [getRange, if_pos ⟨by omega, hin⟩] at h
              exact absurd h (by simp)
            · rw [getRange, if_neg (by omega)] at h
              obtain rfl := Outcome.err.inj h
              refine ⟨_, _, rfl, .ended rfl ?_⟩
              have hwhole : input = openedBytes lists ++ (ds ++ colon :: tail) := by
                rw [← htake, ← hsplit, List.take_append_drop]
              rw [hwhole]
              exact viable_payload hlists hcanonical hvalue (by omega)
      · rw [if_neg hcolon] at h
        obtain rfl := Outcome.err.inj h
        refine ⟨_, _, rfl, .refused (by omega) hnumeral ?_ (by simp)⟩
        have hget : input[start + ds.length]? = some b := by rw [hat, List.head?_cons]
        rw [take_succ_of_getElem? hget, hpassed, List.append_assoc]
        exact dead_atom hcanonical.1 hcanonical.2.1 (Or.inr ⟨htail b (by simp), hcolon⟩)

theorem parseAtom_exact (htake : input.take start = openedBytes lists)
    (hlists : OpenedWithin limits lists) (husize : input.length ≤ usizeMax) {d : UInt8}
    (hget : input[start]? = some d) (hd : isAsciiDigit d = true) {e : ParseError}
    (h : parseAtom input limits start = .err e) :
    ∃ kind k, e = .at_ kind k ∧ ExactAt input kind k := by
  obtain ⟨hstart, -⟩ := List.getElem?_eq_some_iff.mp hget
  rw [parseAtom_eq] at h
  rcases Outcome.bind_eq_err.mp h with hloop | ⟨⟨position, length⟩, hloop, h⟩
  · exact lengthLoop_exact htake hlists hstart husize hloop
  · obtain ⟨ds, tail, hsplit, hds, hends, rfl, rfl, hvalue, hzero⟩ :=
      lengthLoop_sound hstart _ _ _ _ _ (Nat.le_refl _) (Nat.zero_le _) hloop
    exact atomTail_exact htake hlists husize hsplit
      (canonicalDigits_of_run hget hd hsplit hds hends hzero) hends hvalue h

end Atom

/-! ## §2  Errors of the loop -/

section Loop

variable {reserve : ℕ → ℕ → Bool} {input : Bytes} {limits : ParseLimits}

/-- An error of the parser is exact, or is a failed allocation. -/
def Reported (input : Bytes) (e : ParseError) : Prop :=
  ∃ kind k, e = .at_ kind k ∧ (kind = .allocationFailed ∨ ExactAt input kind k)

theorem Reported.of_exact {e : ParseError} (h : ∃ kind k, e = .at_ kind k ∧ ExactAt input kind k) :
    Reported input e := by
  obtain ⟨kind, k, rfl, hexact⟩ := h
  exact ⟨kind, k, rfl, Or.inr hexact⟩

theorem deliver_err {lists : List (List Sexpr)} {v : Sexpr} {position nodes : ℕ} {e : ParseError}
    (h : deliver reserve lists v position nodes = .err e) :
    e = .at_ .allocationFailed position := by
  cases lists with
  | nil => exact absurd h (by simp [deliver])
  | cons parent outer =>
      by_cases hr : reserve position parent.length
      · simp [deliver, hr] at h
      · simpa [deliver, hr, eq_comm] using h

theorem countNode_err {nodes position : ℕ} {e : ParseError}
    (h : countNode nodes limits position = .err e) : e = .at_ .nodeLimit position := by
  by_cases hn : nodes < limits.maxNodes
  · rw [countNode_ok hn] at h
    exact absurd h (by simp)
  · simpa [countNode, Nat.not_lt.mp hn, eq_comm] using h

/-- A round that goes on ends inside the input. -/
theorem parseRound_inside {s s' : ParserState}
    (h : parseRound reserve input limits s = .ok (.again s')) : s'.position ≤ input.length := by
  rcases parseRound_cases h with ⟨hget, -, -, hr⟩ | ⟨children, lists, -, hget, hr⟩ |
    ⟨payload, stop, -, -, -, hin, -, hr⟩
  · obtain rfl := Round.again.inj hr
    exact (List.getElem?_eq_some_iff.mp hget).1
  · rcases deliver_eq_ok hr with ⟨-, hf⟩ | ⟨parent, outer, -, hr⟩
    · exact absurd hf (by simp)
    · obtain rfl := Round.again.inj hr
      exact (List.getElem?_eq_some_iff.mp hget).1
  · rcases deliver_eq_ok hr with ⟨-, hf⟩ | ⟨parent, outer, -, hr⟩
    · exact absurd hf (by simp)
    · obtain rfl := Round.again.inj hr
      exact hin

/-- One round, from a state whose open lists are the bytes already passed. -/
theorem parseRound_reported {s : ParserState} (hs : Passed input limits s)
    (hpos : s.position ≤ input.length) (husize : input.length ≤ usizeMax) {e : ParseError}
    (h : parseRound reserve input limits s = .err e) : Reported input e := by
  obtain ⟨htake, hwithin, -, -⟩ := hs
  have hviable : Viable (input.take s.position) := by
    rw [htake]
    exact viable_lists hwithin
  unfold parseRound at h
  cases hget : input[s.position]? with
  | none =>
      rw [hget] at h
      obtain rfl := Outcome.err.inj h
      have hend : s.position = input.length :=
        Nat.le_antisymm hpos (List.getElem?_eq_none_iff.mp hget)
      rw [hend, List.take_length] at hviable
      exact ⟨_, _, rfl, Or.inr (.ended hend hviable)⟩
  | some byte =>
      obtain ⟨hlt, -⟩ := List.getElem?_eq_some_iff.mp hget
      have hadd : checkedAdd usizeMax s.position 1 = some (s.position + 1) :=
        checkedAdd_eq_some.mpr ⟨by omega, rfl⟩
      have hcounted : ∀ {e' : ParseError}, countNode s.nodes limits s.position = .err e' →
          Reported input e' := by
        intro e' hcount
        rw [countNode_err hcount]
        exact ⟨_, _, rfl, Or.inr (.limit hpos hviable (by simp))⟩
      have htoken : Dead (openedBytes s.lists ++ [byte]) →
          Reported input (.at_ .unexpectedToken s.position) := by
        intro hdead
        refine ⟨_, _, rfl, Or.inr (.refused hlt hviable ?_ (by simp))⟩
        rwa [take_succ_of_getElem? hget, htake]
      rw [hget, Outcome.okOr_some, Outcome.ok_bind] at h
      by_cases hopen : byte = openParen
      · rw [if_pos hopen] at h
        by_cases hdepth : s.lists.length ≥ limits.maxDepth
        · rw [if_pos hdepth] at h
          obtain rfl := Outcome.err.inj h
          exact ⟨_, _, rfl, Or.inr (.limit hpos hviable (by simp))⟩
        rw [if_neg hdepth] at h
        rcases Outcome.bind_eq_err.mp h with hcount | ⟨nodes, -, h⟩
        · exact hcounted hcount
        by_cases hreserve : reserve s.position s.lists.length
        · rw [if_pos hreserve, hadd] at h
          exact absurd h (by simp)
        · rw [if_neg hreserve] at h
          obtain rfl := Outcome.err.inj h
          exact ⟨_, _, rfl, Or.inl rfl⟩
      rw [if_neg hopen] at h
      by_cases hclose : byte = closeParen
      · rw [if_pos hclose] at h
        cases hlists : s.lists with
        | nil =>
            rw [hlists] at h htoken
            obtain rfl := Outcome.err.inj h
            refine htoken (dead_token ?_ (fun hne => absurd rfl hne))
            rw [hclose]
            exact fun hbegins => hbegins.ne_close rfl
        | cons children lists =>
            rw [hlists] at h
            simp only [hadd, Outcome.index_some, Outcome.ok_bind] at h
            rw [deliver_err h]
            exact ⟨_, _, rfl, Or.inl rfl⟩
      rw [if_neg hclose] at h
      by_cases hdigit : isAsciiDigit byte = true
      · rw [if_pos hdigit] at h
        rcases Outcome.bind_eq_err.mp h with hcount | ⟨nodes, -, h⟩
        · exact hcounted hcount
        rcases Outcome.bind_eq_err.mp h with hatom | ⟨read, -, h⟩
        · exact .of_exact (parseAtom_exact htake hwithin husize hget hdigit hatom)
        · rw [deliver_err h]
          exact ⟨_, _, rfl, Or.inl rfl⟩
      · rw [if_neg hdigit] at h
        obtain rfl := Outcome.err.inj h
        refine htoken (dead_token ?_ (fun _ => hclose))
        rintro (hbegins | hbegins)
        · exact hopen hbegins
        · exact hdigit hbegins

/-- The loop: the rounds before the failing one keep the invariant. -/
theorem parseLoop_reported (husize : input.length ≤ usizeMax) {e : ParseError} :
    ∀ (fuel : ℕ) (s : ParserState), Passed input limits s → s.position ≤ input.length →
      parseLoop reserve input limits fuel s = .err e → Reported input e := by
  intro fuel
  induction fuel with
  | zero =>
      intro s _ _ h
      exact absurd h (by simp [parseLoop])
  | succ fuel ih =>
      intro s hs hpos h
      rw [parseLoop_succ] at h
      rcases Outcome.bind_eq_err.mp h with hround | ⟨r, hround, h⟩
      · exact parseRound_reported hs hpos husize hround
      · rcases hs.round hround with ⟨s', rfl, hs'⟩ | ⟨v, position, rfl, -, -, -⟩
        · exact ih s' hs' (parseRound_inside hround) h
        · exact absurd h (by simp [resume])

theorem passed_start : Passed input limits ⟨[], 0, 0⟩ := ⟨rfl, trivial, rfl, Nat.zero_le _⟩

theorem parsePrefix_reported {e : ParseError} (h : parsePrefix reserve input limits = .err e) :
    (e = .at_ .inputLimit limits.maxInput ∧ input.length > limits.maxInput) ∨
      (Reported input e ∧ input.length ≤ limits.maxInput) := by
  unfold parsePrefix at h
  by_cases hmax : input.length > limits.maxInput
  · rw [if_pos hmax] at h
    exact Or.inl ⟨(Outcome.err.inj h).symm, hmax⟩
  · rw [if_neg hmax] at h
    have hin : input.length ≤ limits.maxInput := Nat.not_lt.mp hmax
    exact Or.inr ⟨parseLoop_reported (Nat.le_trans hin limits.input_usize) _ _ passed_start
      (Nat.zero_le _) h, hin⟩

/-- **Exact offsets.** What precedes the offset of an error can still become an
encoding; an error that blames a byte blames the first one after which nothing
can; and data is trailing only after a complete expression. -/
theorem parsePrefix_offsets (reserve : ℕ → ℕ → Bool) (input : Bytes) (limits : ParseLimits) :
    (∀ e, parsePrefix reserve input limits = .err e → e.kind ≠ .inputLimit →
      e.kind ≠ .allocationFailed →
      ∃ k, e.offset = some k ∧ k ≤ input.length ∧
        (∃ v : Sexpr, v.AtomsWithin usizeMax ∧ input.take k <+: v.canon) ∧
        (e.kind = .unexpectedEof → k = input.length) ∧
        (e.kind = .unexpectedToken ∨ e.kind = .invalidLength ∨ e.kind = .expectedColon →
          k < input.length ∧ ∀ v : Sexpr, ¬ input.take (k + 1) <+: v.canon)) ∧
    ∀ e, parseComplete reserve input limits = .err e → e.kind = .trailingData →
      ∃ k, e.offset = some k ∧ k < input.length ∧ ∃ v : Sexpr, input.take k = v.canon := by
  constructor
  · intro e h hinput halloc
    rcases parsePrefix_reported h with ⟨rfl, -⟩ | ⟨⟨kind, k, rfl, hreported⟩, -⟩
    · exact absurd rfl hinput
    · rcases hreported with rfl | hexact
      · exact absurd rfl halloc
      · exact ⟨k, rfl, hexact.le, hexact.viable, hexact.eof, hexact.unrecoverable⟩
  · intro e h hkind
    unfold parseComplete at h
    rcases Outcome.bind_eq_err.mp h with hstart | ⟨⟨v, n⟩, hstart, h⟩
    · rcases parsePrefix_reported hstart with ⟨rfl, -⟩ | ⟨⟨kind, k, rfl, hreported⟩, -⟩
      · exact absurd hkind (by simp [ParseError.at_])
      · rcases hreported with rfl | hexact
        · exact absurd hkind (by simp [ParseError.at_])
        · exact absurd hkind hexact.untrailed
    · obtain ⟨-, hn, htake, -⟩ := parsePrefix_sound hstart
      by_cases hall : n = input.length
      · simp [hall] at h
      · simp only [ne_eq, hall, not_false_eq_true, if_true] at h
        obtain rfl := Outcome.err.inj h
        exact ⟨n, rfl, by omega, v, htake⟩

/-- `(01`: the second digit is the first byte that no encoding has there. -/
theorem parsePrefix_offsets_zero :
    parsePrefix (fun _ _ => true) [40, 48, 49] .default = .err (.at_ .invalidLength 2) ∧
      ∀ v : Sexpr, ¬ [40, 48, 49] <+: v.canon := by
  have hrun : parsePrefix (fun _ _ => true) [40, 48, 49] .default =
      .err (.at_ .invalidLength 2) := rfl
  obtain ⟨k, hk, -, -, -, hdead⟩ :=
    (parsePrefix_offsets _ _ _).1 _ hrun (by decide) (by decide)
  obtain rfl : 2 = k := Option.some.inj hk
  exact ⟨hrun, (hdead (Or.inr (Or.inl rfl))).2⟩

end Loop

end Assuan
