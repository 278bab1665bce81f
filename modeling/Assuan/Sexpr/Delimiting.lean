import Assuan.Sexpr.Offsets

/-!
# Encodings delimit themselves

Bytes after an expression do not change how it is parsed, and an expression that
is cut short is recognised as such. Both come from one relation between the runs
over some input and over a longer one: they are equal, or the shorter run has
stopped at the end of its input.
-/

namespace Assuan

open Sexpr

/-! ## §1  Runs over a prefix -/

/-- `short` is `long`, or has come to the end of its input. -/
def CutOff {α : Type} (short long : Outcome ParseError α) : Prop :=
  short = long ∨ ∃ k, short = .err (.at_ .unexpectedEof k)

section CutOff

variable {α β : Type}

theorem CutOff.refl (x : Outcome ParseError α) : CutOff x x := Or.inl rfl

theorem CutOff.eof (k : ℕ) (x : Outcome ParseError α) :
    CutOff (.err (.at_ .unexpectedEof k)) x := Or.inr ⟨k, rfl⟩

theorem CutOff.bind {x y : Outcome ParseError α} {f g : α → Outcome ParseError β}
    (h : CutOff x y) (hf : ∀ a, y = .ok a → CutOff (f a) (g a)) :
    CutOff (x >>= f) (y >>= g) := by
  rcases h with rfl | ⟨k, rfl⟩
  · cases x with
    | ok a => exact hf a rfl
    | err e => exact .refl _
    | panic => exact .refl _
    | dropped => exact .refl _
  · exact .eof k _

end CutOff

section Rounds

variable {reserve : ℕ → ℕ → Bool} {limits : ParseLimits} {q s : Bytes}

theorem cutOff_get (position : ℕ) :
    CutOff (Outcome.okOr (.at_ .unexpectedEof position) q[position]?)
      (Outcome.okOr (.at_ .unexpectedEof position) (q ++ s)[position]?) := by
  by_cases h : position < q.length
  · rw [List.getElem?_append_left h]
    exact .refl _
  · rw [List.getElem?_eq_none (Nat.not_lt.mp h)]
    exact .eof _ _

/-- The digit loop meets the same bytes, or it has seen digits to the end of the
shorter input. -/
theorem lengthLoop_cutOff {start : ℕ} (hstart : start < q.length) :
    ∀ (rest : Bytes) (position length : ℕ),
      lengthLoop (q ++ s) start (rest ++ s) position length =
          lengthLoop q start rest position length ∨
        ∃ n, lengthLoop q start rest position length = .ok (position + rest.length, n) := by
  have hlong : start < (q ++ s).length := by
    rw [List.length_append]
    omega
  intro rest
  induction rest with
  | nil =>
      intro position length
      exact Or.inr ⟨length, rfl⟩
  | cons b rest ih =>
      intro position length
      by_cases hb : isAsciiDigit b = true
      · rw [List.cons_append, lengthLoop_digit hb hlong, lengthLoop_digit hb hstart,
          List.getElem?_append_left hstart]
        by_cases hz : position > start ∧ q[start]? = some (digitByte 0)
        · rw [if_pos hz, if_pos hz]
          exact Or.inl rfl
        rw [if_neg hz, if_neg hz]
        cases checkedPush usizeMax length b with
        | none => exact Or.inl rfl
        | some length' =>
            cases hadd : checkedAdd usizeMax position 1 with
            | none => exact Or.inl rfl
            | some position' =>
                obtain ⟨-, rfl⟩ := checkedAdd_eq_some.mp hadd
                simp only [Outcome.okOr_some, Outcome.index_some, Outcome.ok_bind]
                rcases ih (position + 1) length' with h | ⟨n, h⟩
                · exact Or.inl h
                · refine Or.inr ⟨n, ?_⟩
                  rw [h, List.length_cons]
                  congr 2
                  omega
      · rw [Bool.not_eq_true] at hb
        rw [List.cons_append, lengthLoop, lengthLoop, if_pos hb, if_pos hb]
        exact Or.inl rfl

theorem expectColon_cutOff (position : ℕ) :
    CutOff (expectColon q position) (expectColon (q ++ s) position) := by
  unfold expectColon
  by_cases h : position < q.length
  · rw [List.getElem?_append_left h]
    exact .refl _
  · rw [List.getElem?_eq_none (Nat.not_lt.mp h)]
    exact .eof _ _

theorem getRange_cutOff (start stop : ℕ) :
    CutOff (Outcome.okOr (.at_ .unexpectedEof q.length) (getRange q start stop))
      (Outcome.okOr (.at_ .unexpectedEof (q ++ s).length) (getRange (q ++ s) start stop)) := by
  by_cases hstop : stop ≤ q.length
  · have htake : (q ++ s).take stop = q.take stop := List.take_append_of_le_length hstop
    by_cases hstart : start ≤ stop
    · rw [getRange, getRange, if_pos ⟨hstart, hstop⟩, if_pos, htake]
      · exact .refl _
      · rw [List.length_append]
        omega
    · rw [getRange, if_neg (by omega)]
      exact .eof _ _
  · rw [getRange, if_neg (by omega)]
    exact .eof _ _

theorem atomTail_cutOff (start position length : ℕ) :
    CutOff (atomTail q limits start position length)
      (atomTail (q ++ s) limits start position length) := by
  unfold atomTail
  refine (expectColon_cutOff position).bind fun position' _ => ?_
  by_cases hlimit : length > limits.maxAtom
  · rw [if_pos hlimit, if_pos hlimit]
    exact .refl _
  · rw [if_neg hlimit, if_neg hlimit]
    refine (CutOff.refl _).bind fun stop _ => ?_
    exact (getRange_cutOff position' stop).bind fun payload _ => .refl _

theorem parseAtom_cutOff {start : ℕ} (hstart : start < q.length) :
    CutOff (parseAtom q limits start) (parseAtom (q ++ s) limits start) := by
  rw [parseAtom_eq, parseAtom_eq, List.drop_append_of_le_length (Nat.le_of_lt hstart)]
  rcases lengthLoop_cutOff (s := s) hstart (q.drop start) start 0 with h | ⟨n, h⟩
  · rw [h]
    exact (CutOff.refl _).bind fun read _ => atomTail_cutOff start read.1 read.2
  · -- the digits run to the end of the shorter input, where a colon is missing
    have hend : start + (q.drop start).length = q.length := by
      rw [List.length_drop]
      omega
    rw [h, Outcome.ok_bind, hend, atomTail, expectColon, List.getElem?_eq_none (Nat.le_refl _)]
    exact .eof _ _

theorem parseRound_cutOff (state : ParserState) :
    CutOff (parseRound reserve q limits state) (parseRound reserve (q ++ s) limits state) := by
  by_cases hlt : state.position < q.length
  · unfold parseRound
    refine (cutOff_get state.position).bind fun byte _ => ?_
    by_cases hopen : byte = openParen
    · rw [if_pos hopen, if_pos hopen]
      exact .refl _
    rw [if_neg hopen, if_neg hopen]
    by_cases hclose : byte = closeParen
    · rw [if_pos hclose, if_pos hclose]
      exact .refl _
    rw [if_neg hclose, if_neg hclose]
    by_cases hdigit : isAsciiDigit byte = true
    · rw [if_pos hdigit, if_pos hdigit]
      refine (CutOff.refl _).bind fun nodes _ => ?_
      exact (parseAtom_cutOff hlt).bind fun read _ => .refl _
    · rw [if_neg hdigit, if_neg hdigit]
      exact .refl _
  · rw [parseRound, List.getElem?_eq_none (Nat.not_lt.mp hlt)]
    exact .eof _ _

/-- The loop makes the same rounds until the shorter input ends. -/
theorem parseLoop_cutOff :
    ∀ (fuel : ℕ) (state : ParserState),
      CutOff (parseLoop reserve q limits fuel state)
        (parseLoop reserve (q ++ s) limits fuel state) := by
  intro fuel
  induction fuel with
  | zero =>
      intro state
      exact .refl _
  | succ fuel ih =>
      intro state
      rw [parseLoop_succ, parseLoop_succ]
      refine (parseRound_cutOff state).bind fun r _ => ?_
      cases r with
      | again state' => exact ih state'
      | finished v n => exact .refl _

/-- Fuel that was enough stays enough. -/
theorem parseLoop_fuel {input : Bytes} (more : ℕ) :
    ∀ (fuel : ℕ) (state : ParserState), parseLoop reserve input limits fuel state ≠ .panic →
      parseLoop reserve input limits (fuel + more) state =
        parseLoop reserve input limits fuel state := by
  intro fuel
  induction fuel with
  | zero =>
      intro state h
      exact absurd rfl h
  | succ fuel ih =>
      intro state h
      rw [Nat.succ_add, parseLoop_succ, parseLoop_succ]
      rw [parseLoop_succ] at h
      cases hround : parseRound reserve input limits state with
      | ok r =>
          cases r with
          | again state' =>
              rw [hround] at h
              exact ih state' h
          | finished v n => rfl
      | err e => rfl
      | panic => rfl
      | dropped => rfl

/-- More input changes nothing, unless the parser asked for it. -/
theorem parsePrefix_cutOff (hmax : q.length + s.length ≤ limits.maxInput) :
    CutOff (parsePrefix reserve q limits) (parsePrefix reserve (q ++ s) limits) := by
  have husize : q.length ≤ usizeMax := by
    have := limits.input_usize
    omega
  have henough : parseLoop reserve q limits (q.length + 1) ⟨[], 0, 0⟩ ≠ .panic :=
    parseLoop_ne_panic husize _ _ (by simp only; omega)
  have hfuel : (q ++ s).length + 1 = q.length + 1 + s.length := by
    rw [List.length_append]
    omega
  unfold parsePrefix
  rw [if_neg (by omega), if_neg (by rw [List.length_append]; omega), hfuel,
    ← parseLoop_fuel s.length _ _ henough]
  exact parseLoop_cutOff _ _

end Rounds

/-! ## §2  Sequences of expressions -/

section Sequences

variable (reserve : ℕ → ℕ → Bool) (limits : ParseLimits)

/-- Calls `parse_prefix` and drops what it consumed, until a call fails: the
values returned and how the last call ended. -/
def parseEach : ℕ → Bytes → List Sexpr × Outcome ParseError Unit
  | 0, _ => ([], .panic)
  | fuel + 1, input =>
      match parsePrefix reserve input limits with
      | .ok (v, consumed) =>
          let (vs, last) := parseEach fuel (input.drop consumed)
          (v :: vs, last)
      | .err e => ([], .err e)
      | .panic => ([], .panic)
      | .dropped => ([], .dropped)

variable {reserve limits}

theorem parsePrefix_of_complete {input : Bytes} {v : Sexpr}
    (h : parseComplete reserve input limits = .ok v) :
    parsePrefix reserve input limits = .ok (v, input.length) := by
  unfold parseComplete at h
  obtain ⟨⟨value, consumed⟩, hstart, h⟩ := Outcome.bind_eq_ok.mp h
  by_cases hall : consumed = input.length
  · obtain rfl : value = v := by simpa [hall] using h
    rw [hstart, hall]
  · simp [hall] at h

theorem parsePrefix_append {v : Sexpr} (hv : parseComplete reserve v.canon limits = .ok v)
    {s : Bytes} (hmax : v.canon.length + s.length ≤ limits.maxInput) :
    parsePrefix reserve (v.canon ++ s) limits = .ok (v, v.canon.length) := by
  have hwhole := parsePrefix_of_complete hv
  rcases @parsePrefix_cutOff reserve _ _ _ hmax with h | ⟨k, h⟩
  · rw [← h, hwhole]
  · rw [hwhole] at h
    exact absurd h (by simp)

theorem parsePrefix_truncated {v : Sexpr} (hv : parseComplete reserve v.canon limits = .ok v)
    {q : Bytes} (hq : q <+: v.canon) (hne : q ≠ v.canon) :
    parsePrefix reserve q limits = .err (.at_ .unexpectedEof q.length) := by
  obtain ⟨t, ht⟩ := hq
  have hwhole := parsePrefix_of_complete hv
  have hmax := (parsePrefix_sound hwhole).1
  have hlen : v.canon.length = q.length + t.length := by rw [← ht, List.length_append]
  have ht' : 0 < t.length := by
    rw [List.length_pos_iff]
    rintro rfl
    exact hne (by rw [← ht, List.append_nil])
  have hcut : CutOff (parsePrefix reserve q limits) (parsePrefix reserve (q ++ t) limits) :=
    parsePrefix_cutOff (by omega)
  rcases hcut with h | ⟨k, h⟩
  · -- a result would have consumed more than there is
    rw [ht, hwhole] at h
    have := (parsePrefix_sound h).2.1
    omega
  · rcases parsePrefix_reported h with ⟨hinput, -⟩ | ⟨⟨kind, k', he, hreported⟩, -⟩
    · exact absurd hinput (by simp [ParseError.at_])
    · obtain ⟨rfl, rfl⟩ : .unexpectedEof = kind ∧ k = k' := by simpa [ParseError.at_] using he
      rcases hreported with halloc | hexact
      · exact absurd halloc (by decide)
      · rw [h, hexact.eof rfl]

theorem parsePrefix_nil : parsePrefix reserve [] limits = .err (.at_ .unexpectedEof 0) := by
  unfold parsePrefix
  rw [if_neg (by simp)]
  rfl

/-- A sequence of encodings is read back one by one. -/
theorem parseEach_canonList {vs : List Sexpr}
    (hvs : ∀ v ∈ vs, parseComplete reserve v.canon limits = .ok v)
    (hmax : (canonList vs).length ≤ limits.maxInput) :
    ∀ {fuel : ℕ}, vs.length < fuel →
      parseEach reserve limits fuel (canonList vs) = (vs, .err (.at_ .unexpectedEof 0)) := by
  induction vs with
  | nil =>
      intro fuel hfuel
      obtain ⟨fuel, rfl⟩ := Nat.exists_eq_add_of_lt hfuel
      rw [parseEach, canonList, parsePrefix_nil]
  | cons v vs ih =>
      intro fuel hfuel
      rw [canonList, List.length_append] at hmax
      obtain ⟨fuel, rfl⟩ : ∃ n, fuel = n + 1 := ⟨fuel - 1, by omega⟩
      have hless : vs.length < fuel := by
        simp only [List.length_cons] at hfuel
        omega
      have hrest := ih (fun w hw => hvs w (List.mem_cons_of_mem _ hw)) (by omega) hless
      rw [parseEach, canonList, parsePrefix_append (hvs v List.mem_cons_self) hmax]
      simp only [List.drop_left, hrest]

/-- **Self-delimiting.** An encoding that is accepted on its own is parsed the
same in front of any bytes, and every strict prefix of it is reported as
incomplete at its end. So a sequence of encodings is read back exactly, and no
encoding is a proper prefix of another. -/
theorem parsePrefix_delimits (reserve : ℕ → ℕ → Bool) (limits : ParseLimits) :
    (∀ v : Sexpr, parseComplete reserve v.canon limits = .ok v →
      (∀ s : Bytes, v.canon.length + s.length ≤ limits.maxInput →
        parsePrefix reserve (v.canon ++ s) limits = .ok (v, v.canon.length)) ∧
      ∀ q : Bytes, q <+: v.canon → q ≠ v.canon →
        parsePrefix reserve q limits = .err (.at_ .unexpectedEof q.length)) ∧
    (∀ vs : List Sexpr, (∀ v ∈ vs, parseComplete reserve v.canon limits = .ok v) →
      (canonList vs).length ≤ limits.maxInput → ∀ fuel, vs.length < fuel →
        parseEach reserve limits fuel (canonList vs) = (vs, .err (.at_ .unexpectedEof 0))) ∧
    ∀ v w : Sexpr, v.canon <+: w.canon → v.canon = w.canon := by
  refine ⟨fun v hv => ⟨fun s hmax => ?_, fun q hq hne => ?_⟩, fun vs hvs hmax fuel hfuel => ?_,
    fun v w h => ?_⟩
  · exact parsePrefix_append hv hmax
  · exact parsePrefix_truncated hv hq hne
  · exact parseEach_canonList hvs hmax hfuel
  · rw [canon_prefix_eq h]

/-- `1:a` in front of `()`, and the two of them in sequence. -/
theorem parsePrefix_delimits_pair :
    parsePrefix (fun _ _ => true) [49, 58, 97, 40, 41] .default = .ok (.atom [97], 3) ∧
      parsePrefix (fun _ _ => true) [49, 58] .default = .err (.at_ .unexpectedEof 2) ∧
      parseEach (fun _ _ => true) .default 3 [49, 58, 97, 40, 41] =
        ([.atom [97], .list []], .err (.at_ .unexpectedEof 0)) := by
  have hatom : canon (.atom [97]) = [49, 58, 97] := by
    simp only [canon, canonAtom, List.length_cons, List.length_nil, decimal_lt (show 1 < 10 by decide)]
    rfl
  have hlist : canon (.list []) = [40, 41] := rfl
  have hparsed : parseComplete (fun _ _ => true) (canon (.atom [97])) .default =
      .ok (.atom [97]) := by
    rw [hatom]
    rfl
  have hboth : canonList [.atom [97], .list []] = [49, 58, 97, 40, 41] := by
    simp only [canonList, hatom, hlist]
    rfl
  obtain ⟨hone, hmany, -⟩ := parsePrefix_delimits (fun _ _ => true) .default
  obtain ⟨happend, hcut⟩ := hone _ hparsed
  refine ⟨?_, hcut [49, 58] (by rw [hatom]; decide) (by rw [hatom]; decide), ?_⟩
  · have h := happend [40, 41] (by rw [hatom]; decide)
    rwa [hatom] at h
  · rw [← hboth]
    refine hmany _ (fun v hv => ?_) (by rw [hboth]; decide) 3 (by decide)
    rcases List.mem_cons.mp hv with rfl | hv
    · exact hparsed
    · obtain rfl := List.mem_singleton.mp hv
      rfl

end Sequences

end Assuan
