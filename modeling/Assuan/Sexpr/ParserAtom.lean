import Assuan.Sexpr.Parser

/-!
# Reading an atom

`parse_atom` succeeds exactly on a canonical length, a colon and that many
bytes. The digit loop is characterised by the run of digits it passes; the
leading-zero test looks back at the first of them.
-/

namespace Assuan

section Atom

variable {input : Bytes} {limits : ParseLimits} {start : ℕ}

/-- The byte a digit run stops at, if any, is not a digit. -/
def RunEnds (tail : Bytes) : Prop := ∀ b ∈ tail.head?, isAsciiDigit b = false

theorem lengthLoop_end {tail : Bytes} (h : RunEnds tail) (position length : ℕ) :
    lengthLoop input start tail position length = .ok (position, length) := by
  cases tail with
  | nil => rfl
  | cons b tail =>
      rw [lengthLoop, if_pos (h b (by simp))]

/-- One digit: the leading-zero test, the checked accumulation, the next byte. -/
theorem lengthLoop_digit {d : UInt8} {rest : Bytes} {position length : ℕ}
    (hd : isAsciiDigit d = true) (hstart : start < input.length) :
    lengthLoop input start (d :: rest) position length =
      if position > start ∧ input[start]? = some (digitByte 0) then
        .err (.at_ .invalidLength position)
      else
        Outcome.okOr (.at_ .lengthOverflow position) (checkedPush usizeMax length d) >>=
          fun length => Outcome.index (checkedAdd usizeMax position 1) >>=
            fun position => lengthLoop input start rest position length := by
  rw [lengthLoop, if_neg (by simp [hd])]
  by_cases hp : position > start
  · by_cases hz : input[start] = digitByte 0
    · simp [hp, hz, hstart]
    · simp [hp, hz, hstart]
  · simp [hp]

/-- What a successful scan has read. -/
theorem lengthLoop_sound (hstart : start < input.length) :
    ∀ (rest : Bytes) (position length p n : ℕ), start ≤ position → length ≤ usizeMax →
      lengthLoop input start rest position length = .ok (p, n) →
      ∃ ds tail, rest = ds ++ tail ∧ (∀ d ∈ ds, isAsciiDigit d = true) ∧ RunEnds tail ∧
        p = position + ds.length ∧ n = decimalValue length ds ∧ n ≤ usizeMax ∧
        (start + 1 < position + ds.length → ds ≠ [] → input[start]? ≠ some (digitByte 0)) := by
  intro rest
  induction rest with
  | nil =>
      intro position length p n _ hlen h
      obtain ⟨rfl, rfl⟩ : position = p ∧ length = n := by simpa [lengthLoop] using h
      refine ⟨[], [], rfl, by simp, by simp [RunEnds], rfl, rfl, hlen, ?_⟩
      exact fun _ hne => absurd rfl hne
  | cons b rest ih =>
      intro position length p n hpos hlen h
      by_cases hb : isAsciiDigit b = true
      · rw [lengthLoop_digit hb hstart] at h
        by_cases hz : position > start ∧ input[start]? = some (digitByte 0)
        · rw [if_pos hz] at h
          exact absurd h (by simp)
        rw [if_neg hz] at h
        obtain ⟨length', hpush, h⟩ := Outcome.bind_eq_ok.mp h
        obtain ⟨position', hadd, h⟩ := Outcome.bind_eq_ok.mp h
        obtain ⟨hle, rfl⟩ := checkedPush_eq_some.mp (Outcome.okOr_eq_ok.mp hpush)
        obtain ⟨-, rfl⟩ := checkedAdd_eq_some.mp (Outcome.index_eq_ok.mp hadd)
        obtain ⟨ds, tail, rfl, hds, htail, rfl, rfl, hn, hzero⟩ :=
          ih (position + 1) _ p n (by omega) hle h
        refine ⟨b :: ds, tail, rfl, ?_, htail, ?_, rfl, hn, fun hlong _ hfirst => ?_⟩
        · intro d hd
          rcases List.mem_cons.mp hd with rfl | hd
          · exact hb
          · exact hds d hd
        · simp only [List.length_cons]
          omega
        · -- a first digit zero is refused at the second digit
          by_cases hp : position > start
          · exact hz ⟨hp, hfirst⟩
          · have hne : ds ≠ [] := by
              rintro rfl
              simp only [List.length_cons, List.length_nil] at hlong
              omega
            exact hzero (by simp only [List.length_cons] at hlong; omega) hne hfirst
      · rw [Bool.not_eq_true] at hb
        have hrun : RunEnds (b :: rest) := by
          intro x hx
          obtain rfl : b = x := by simpa using hx
          exact hb
        rw [lengthLoop_end hrun] at h
        obtain ⟨rfl, rfl⟩ : position = p ∧ length = n := by simpa using h
        exact ⟨[], b :: rest, rfl, by simp, hrun, rfl, rfl, hlen, fun _ hne => absurd rfl hne⟩

/-- A run of digits is read to its end. -/
theorem lengthLoop_complete (hstart : start < input.length) {tail : Bytes}
    (htail : RunEnds tail) :
    ∀ (ds : Bytes) (position length : ℕ), start ≤ position →
      (∀ d ∈ ds, isAsciiDigit d = true) → decimalValue length ds ≤ usizeMax →
      position + ds.length ≤ usizeMax →
      (start + 1 < position + ds.length → input[start]? ≠ some (digitByte 0)) →
      lengthLoop input start (ds ++ tail) position length =
        .ok (position + ds.length, decimalValue length ds) := by
  intro ds
  induction ds with
  | nil =>
      intro position length _ _ _ _ _
      exact lengthLoop_end htail position length
  | cons d ds ih =>
      intro position length hpos hds hvalue hroom hzero
      simp only [List.length_cons] at hroom hzero
      have hcons : decimalValue length (d :: ds) =
          decimalValue (length * 10 + digitValue d) ds := rfl
      have hstep := le_decimalValue (length * 10 + digitValue d) ds
      rw [hcons] at hvalue ⊢
      have hpush : checkedPush usizeMax length d = some (length * 10 + digitValue d) :=
        checkedPush_eq_some.mpr ⟨by omega, rfl⟩
      have hadd : checkedAdd usizeMax position 1 = some (position + 1) :=
        checkedAdd_eq_some.mpr ⟨by omega, rfl⟩
      rw [List.cons_append, lengthLoop_digit (hds d List.mem_cons_self) hstart, if_neg, hpush,
        hadd]
      · simp only [Outcome.okOr_some, Outcome.index_some, Outcome.ok_bind]
        rw [ih (position + 1) _ (by omega) (fun x hx => hds x (List.mem_cons_of_mem _ hx)) hvalue
          (by omega) (fun h => hzero (by omega))]
        simp only [List.length_cons]
        congr 2
        omega
      · rintro ⟨hp, hfirst⟩
        exact hzero (by omega) hfirst

theorem lengthLoop_ne_panic (hstart : start < input.length) :
    ∀ (rest : Bytes) (position length : ℕ), position + rest.length ≤ usizeMax →
      lengthLoop input start rest position length ≠ .panic := by
  intro rest
  induction rest with
  | nil =>
      intro position length _
      simp [lengthLoop]
  | cons b rest ih =>
      intro position length hroom
      simp only [List.length_cons] at hroom
      by_cases hb : isAsciiDigit b = true
      · have hadd : checkedAdd usizeMax position 1 = some (position + 1) :=
          checkedAdd_eq_some.mpr ⟨by omega, rfl⟩
        rw [lengthLoop_digit hb hstart, hadd]
        split
        · simp
        · cases checkedPush usizeMax length b with
          | none => simp
          | some length' => simpa using ih (position + 1) length' (by omega)
      · rw [Bool.not_eq_true] at hb
        simp [lengthLoop, hb]

theorem expectColon_sound {position position' : ℕ}
    (h : expectColon input position = .ok position') :
    position' = position + 1 ∧ input[position]? = some Sexpr.colon := by
  unfold expectColon at h
  cases hget : input[position]? with
  | none => simp [hget] at h
  | some byte =>
      by_cases hbyte : byte = Sexpr.colon
      · simp only [hget, if_pos hbyte] at h
        obtain ⟨-, rfl⟩ := checkedAdd_eq_some.mp (Outcome.index_eq_ok.mp h)
        exact ⟨rfl, by rw [hbyte]⟩
      · simp [hget, hbyte] at h

theorem expectColon_complete {position : ℕ} (hget : input[position]? = some Sexpr.colon)
    (husize : input.length ≤ usizeMax) : expectColon input position = .ok (position + 1) := by
  obtain ⟨hlt, -⟩ := List.getElem?_eq_some_iff.mp hget
  have hadd : checkedAdd usizeMax position 1 = some (position + 1) :=
    checkedAdd_eq_some.mpr ⟨by omega, rfl⟩
  unfold expectColon
  simp only [hget, if_true, hadd, Outcome.index_some]

theorem expectColon_ne_panic (husize : input.length ≤ usizeMax) (position : ℕ) :
    expectColon input position ≠ .panic := by
  cases hget : input[position]? with
  | none => simp [expectColon, hget]
  | some byte =>
      by_cases hbyte : byte = Sexpr.colon
      · rw [expectColon_complete (hget.trans (by rw [hbyte])) husize]
        simp
      · simp [expectColon, hget, hbyte]

/-- The part of `parse_atom` after the digits. -/
def atomTail (input : Bytes) (limits : ParseLimits) (start position length : ℕ) :
    Outcome ParseError (Bytes × ℕ) := do
  let position ← expectColon input position
  if length > limits.maxAtom then .err (.at_ .atomLimit start)
  else do
    let stop ← Outcome.okOr (.at_ .lengthOverflow start) (checkedAdd usizeMax position length)
    let payload ← Outcome.okOr (.at_ .unexpectedEof input.length) (getRange input position stop)
    pure (payload, stop)

theorem parseAtom_eq (position : ℕ) :
    parseAtom input limits position =
      lengthLoop input position (input.drop position) position 0 >>=
        fun read => atomTail input limits position read.1 read.2 := rfl

theorem atomTail_sound {position length stop : ℕ} {payload : Bytes}
    (h : atomTail input limits start position length = .ok (payload, stop)) :
    input.drop position = Sexpr.colon :: (payload ++ input.drop stop) ∧
      payload.length = length ∧ length ≤ limits.maxAtom ∧ stop = position + 1 + length ∧
      stop ≤ input.length := by
  unfold atomTail at h
  obtain ⟨position', hcolon, h⟩ := Outcome.bind_eq_ok.mp h
  obtain ⟨rfl, hget⟩ := expectColon_sound hcolon
  by_cases hlimit : length > limits.maxAtom
  · rw [if_pos hlimit] at h
    exact absurd h (by simp)
  rw [if_neg hlimit] at h
  obtain ⟨stop', hstop, h⟩ := Outcome.bind_eq_ok.mp h
  obtain ⟨-, rfl⟩ := checkedAdd_eq_some.mp (Outcome.okOr_eq_ok.mp hstop)
  obtain ⟨payload', hrange, h⟩ := Outcome.bind_eq_ok.mp h
  obtain ⟨rfl, rfl⟩ : payload' = payload ∧ position + 1 + length = stop := by simpa using h
  have hin : position + 1 + length ≤ input.length := by
    by_contra hout
    rw [Outcome.okOr_eq_ok, getRange, if_neg (by omega)] at hrange
    exact absurd hrange (by simp)
  rw [Outcome.okOr_eq_ok, getRange, if_pos ⟨by omega, hin⟩] at hrange
  obtain rfl := Option.some.inj hrange
  obtain ⟨hlt, hat⟩ := List.getElem?_eq_some_iff.mp hget
  refine ⟨?_, ?_, by omega, rfl, hin⟩
  · have hrest : position + 1 + length - (position + 1) = length := by omega
    have hsuffix : input.drop (position + 1 + length) =
        (input.drop (position + 1)).drop length := by rw [List.drop_drop]
    rw [List.drop_eq_getElem_cons hlt, hat, List.drop_take, hrest, hsuffix,
      List.take_append_drop]
  · rw [List.length_drop, List.length_take]
    omega

theorem atomTail_complete {position stop : ℕ} {payload post : Bytes}
    (hdrop : input.drop position = Sexpr.colon :: (payload ++ post))
    (husize : input.length ≤ usizeMax) (hatom : payload.length ≤ limits.maxAtom)
    (hstop : stop = position + 1 + payload.length) :
    atomTail input limits start position payload.length = .ok (payload, stop) := by
  have hlen : input.length - position = 1 + (payload.length + post.length) := by
    rw [← List.length_drop, hdrop]
    simp only [List.length_cons, List.length_append]
    omega
  have hget : input[position]? = some Sexpr.colon := by
    rw [← List.head?_drop, hdrop, List.head?_cons]
  have hrest : input.drop (position + 1) = payload ++ post := by
    rw [← List.drop_drop, hdrop]
    rfl
  have hend : checkedAdd usizeMax (position + 1) payload.length = some stop :=
    checkedAdd_eq_some.mpr ⟨by omega, hstop⟩
  have hrange : getRange input (position + 1) stop = some payload := by
    have hsub : stop - (position + 1) = payload.length := by omega
    rw [getRange, if_pos ⟨by omega, by omega⟩, List.drop_take, hrest, hsub,
      List.take_left]
  unfold atomTail
  rw [expectColon_complete hget husize, Outcome.ok_bind, if_neg (by omega), hend]
  simp only [Outcome.okOr_some, Outcome.ok_bind, hrange, Outcome.pure_eq]

theorem atomTail_ne_panic (husize : input.length ≤ usizeMax) (position length : ℕ) :
    atomTail input limits start position length ≠ .panic := by
  unfold atomTail
  apply Outcome.bind_ne_panic (expectColon_ne_panic husize _)
  intro position _
  by_cases hlimit : length > limits.maxAtom
  · simp [hlimit]
  · rw [if_neg hlimit]
    cases checkedAdd usizeMax position length with
    | none => simp
    | some stop => cases hrange : getRange input position stop <;> simp [hrange]

/-- The digits of an atom that begins at `start` are a numeral. -/
theorem canonicalDigits_of_run {d : UInt8} {ds tail : Bytes} (hget : input[start]? = some d)
    (hd : isAsciiDigit d = true) (hsplit : input.drop start = ds ++ tail)
    (hds : ∀ x ∈ ds, isAsciiDigit x = true) (hends : RunEnds tail)
    (hzero : start + 1 < start + ds.length → ds ≠ [] → input[start]? ≠ some (digitByte 0)) :
    CanonicalDigits ds := by
  have hhead : (input.drop start).head? = some d := by rw [List.head?_drop, hget]
  have hne : ds ≠ [] := by
    rintro rfl
    rw [hsplit, List.nil_append] at hhead
    have := hends d (by simp [hhead])
    simp [hd] at this
  refine ⟨hne, hds, fun htwo => ?_⟩
  rw [hsplit, List.head?_append_of_ne_nil _ hne] at hhead
  rw [hhead, ← hget]
  exact hzero (by omega) hne

/-- `parse_atom` reads one canonical atom. -/
theorem parseAtom_sound {d : UInt8} {stop : ℕ} {payload : Bytes}
    (hget : input[start]? = some d) (hd : isAsciiDigit d = true)
    (h : parseAtom input limits start = .ok (payload, stop)) :
    input.drop start = Sexpr.canonAtom payload ++ input.drop stop ∧
      payload.length ≤ limits.maxAtom ∧ start < stop ∧ stop ≤ input.length := by
  obtain ⟨hstart, hat⟩ := List.getElem?_eq_some_iff.mp hget
  rw [parseAtom_eq] at h
  obtain ⟨⟨position, length⟩, hloop, htail⟩ := Outcome.bind_eq_ok.mp h
  obtain ⟨ds, tail, hsplit, hds, hends, rfl, rfl, -, hzero⟩ :=
    lengthLoop_sound hstart _ _ _ _ _ (Nat.le_refl _) (Nat.zero_le _) hloop
  obtain ⟨hcolon, hlen, hmax, rfl, hin⟩ := atomTail_sound htail
  have hcanonical := canonicalDigits_of_run hget hd hsplit hds hends hzero
  have htailEq : tail = input.drop (start + ds.length) := by
    rw [← List.drop_drop, hsplit, List.drop_left]
  have hdecimal : decimal payload.length = ds := by
    rw [hlen]
    exact decimal_decimalValue hcanonical
  refine ⟨?_, by omega, by omega, hin⟩
  rw [Sexpr.canonAtom, hdecimal, hsplit, htailEq, hcolon]
  simp only [List.append_assoc, List.cons_append]

theorem parseAtom_complete {payload post : Bytes}
    (hdrop : input.drop start = Sexpr.canonAtom payload ++ post)
    (husize : input.length ≤ usizeMax) (hatom : payload.length ≤ limits.maxAtom) :
    parseAtom input limits start =
      .ok (payload, start + (Sexpr.canonAtom payload).length) := by
  have hlenDrop : input.length - start =
      (decimal payload.length).length + (1 + payload.length) + post.length := by
    rw [← List.length_drop, hdrop]
    simp only [Sexpr.canonAtom, List.length_append, List.length_cons]
    omega
  have hstart : start < input.length := by omega
  obtain ⟨hne, hdigits, hzero⟩ := canonicalDigits_decimal payload.length
  have hends : RunEnds (Sexpr.colon :: (payload ++ post)) := by
    intro b hb
    obtain rfl : Sexpr.colon = b := by simpa using hb
    decide
  have hsplit : input.drop start =
      decimal payload.length ++ Sexpr.colon :: (payload ++ post) := by
    rw [hdrop, Sexpr.canonAtom]
    simp only [List.append_assoc, List.cons_append]
  have hfirst : input[start]? = (decimal payload.length).head? := by
    rw [← List.head?_drop, hsplit, List.head?_append_of_ne_nil _ hne]
  have hloop := lengthLoop_complete hstart hends (decimal payload.length) start 0
    (Nat.le_refl _) hdigits (by rw [decimalValue_decimal]; omega) (by omega)
    (by
      intro hlong
      rw [hfirst]
      exact hzero (by omega))
  rw [parseAtom_eq, hsplit, hloop, decimalValue_decimal, Outcome.ok_bind]
  apply atomTail_complete _ husize hatom
  · simp only [Sexpr.canonAtom, List.length_append, List.length_cons]
    omega
  · exact post
  · rw [← List.drop_drop, hsplit, List.drop_left]

theorem parseAtom_ne_panic (hstart : start < input.length) (husize : input.length ≤ usizeMax) :
    parseAtom input limits start ≠ .panic := by
  have hloop := lengthLoop_ne_panic hstart (input.drop start) start 0
    (by rw [List.length_drop]; omega)
  rw [parseAtom_eq]
  apply Outcome.bind_ne_panic hloop
  intro read _
  exact atomTail_ne_panic husize _ _

end Atom

end Assuan
