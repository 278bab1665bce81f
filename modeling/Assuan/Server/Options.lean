import Assuan.Foundation.Trim
import Assuan.Server.Session

/-!
# The spellings of an option (`assuan-server/src/hooks.rs`)

`OPTION` takes a name with an optional `--`, and a value after blanks, after an
equals sign, or after both. Every spelling is trimmed four times; each trim is
read off the blanks around what it leaves.
-/

namespace Assuan

/-- `=` -/
def equalsSign : UInt8 := 61

/-- A run of spaces and tabs. -/
def Blank (w : Bytes) : Prop := ∀ b ∈ w, b = space ∨ b = 9

/-- An option name: a token without an equals sign. -/
structure OptionName (name : Bytes) : Prop where
  token : isToken name = true
  no_equals : equalsSign ∉ name

/-! ## §1  Pieces of a line -/

theorem trim_eq (bytes : Bytes) : trim bytes = trimBy isAsciiWhitespace bytes := rfl

theorem Blank.whitespace {w : Bytes} (h : Blank w) : ∀ b ∈ w, isAsciiWhitespace b = true := by
  intro b hb
  rcases h b hb with rfl | rfl <;> decide

theorem Blank.clean {w : Bytes} (h : Blank w) : isCleanLine w = true := by
  rw [isCleanLine_iff]
  intro b hb
  rcases h b hb with rfl | rfl <;> decide

theorem Blank.append {w w' : Bytes} (h : Blank w) (h' : Blank w') : Blank (w ++ w') := by
  intro b hb
  rcases List.mem_append.mp hb with hb | hb
  · exact h b hb
  · exact h' b hb

/-- A byte of a token, unlike the bytes around names and values. -/
theorem graphic_of_token {name : Bytes} (h : isToken name = true) {b : UInt8} (hb : b ∈ name) :
    isAsciiWhitespace b = false ∧ b ≠ space ∧ b ≠ 9 := by
  have hrange := isToken_byte h b hb
  refine ⟨?_, ?_, ?_⟩
  · rw [isAsciiWhitespace, decide_eq_false_iff_not]
    rintro (rfl | rfl | rfl | rfl | rfl) <;> simp at hrange
  · rintro rfl
    simp [space] at hrange
  · rintro rfl
    simp at hrange

theorem token_head {name : Bytes} (h : isToken name = true) :
    ∃ b rest, name = b :: rest := by
  cases name with
  | nil => simp [isToken] at h
  | cons b rest => exact ⟨b, rest, rfl⟩

/-- What ends a name: the line, a blank or an equals sign. -/
def NameEnds (rest : Bytes) : Prop := ∀ b ∈ rest.head?, b = space ∨ b = 9 ∨ b = equalsSign

theorem findIdx_name {name rest : Bytes} (hname : OptionName name) (hrest : NameEnds rest) :
    (name ++ rest).findIdx (fun b => decide (b = space ∨ b = 9 ∨ b = 61)) = name.length := by
  have hnot : ∀ b ∈ name, decide (b = space ∨ b = 9 ∨ b = 61) = false := by
    intro b hb
    obtain ⟨-, hspace, htab⟩ := graphic_of_token hname.token hb
    rw [decide_eq_false_iff_not]
    rintro (h | h | h)
    · exact hspace h
    · exact htab h
    · rw [h] at hb
      exact hname.no_equals hb
  cases rest with
  | nil =>
      rw [List.append_nil]
      exact List.findIdx_eq_length_of_false hnot
  | cons b rest =>
      have hb : decide (b = space ∨ b = 9 ∨ b = 61) = true :=
        decide_eq_true (hrest b (by simp))
      rw [List.findIdx_append, if_neg]
      · rw [List.findIdx_cons, hb]
        simp
      · rw [List.findIdx_eq_length_of_false hnot]
        exact Nat.lt_irrefl _

theorem asBytes_dashes : asBytes "--" = [45, 45] := by decide

theorem asBytes_equals : asBytes "=" = [equalsSign] := by decide

/-- A name without the prefix is left as it is. -/
theorem stripPrefix_dashes {name rest : Bytes} (hname : OptionName name) (hrest : NameEnds rest)
    (hdashes : ¬ asBytes "--" <+: name) : stripPrefix (asBytes "--") (name ++ rest) = none := by
  rw [asBytes_dashes] at hdashes ⊢
  cases hstrip : stripPrefix [45, 45] (name ++ rest) with
  | none => rfl
  | some tail =>
      rw [stripPrefix_eq_some] at hstrip
      obtain ⟨b, more, rfl⟩ := token_head hname.token
      obtain ⟨rfl, htail⟩ := List.cons.inj hstrip
      cases more with
      | nil =>
          -- a name `-` is followed by no further dash
          have hend : rest = 45 :: tail := htail
          exact absurd (hrest 45 (by rw [hend]; rfl)) (by decide)
      | cons c more =>
          obtain ⟨rfl, -⟩ := List.cons.inj htail
          exact absurd ⟨more, rfl⟩ hdashes

/-! ## §2  What a spelling means -/

/-- The optional prefix: without it the name must not look as if it had one. -/
def Dashed (dashes name : Bytes) : Prop :=
  dashes = asBytes "--" ∨ (dashes = [] ∧ ¬ asBytes "--" <+: name)

theorem Dashed.clean {dashes name : Bytes} (h : Dashed dashes name) :
    isCleanLine dashes = true := by
  rcases h with rfl | ⟨rfl, -⟩ <;> decide

theorem Dashed.strip {dashes name rest : Bytes} (h : Dashed dashes name)
    (hname : OptionName name) (hrest : NameEnds rest) :
    (stripPrefix (asBytes "--") (dashes ++ (name ++ rest))).getD (dashes ++ (name ++ rest)) =
      name ++ rest := by
  rcases h with rfl | ⟨rfl, hnot⟩
  · rw [stripPrefix_eq_some.mpr rfl, Option.getD_some]
  · rw [List.nil_append, stripPrefix_dashes hname hrest hnot, Option.getD_none]

/-- The first byte of a spelling is no blank. -/
theorem Dashed.head {dashes name rest : Bytes} (h : Dashed dashes name) (hname : OptionName name) :
    ∀ b ∈ (dashes ++ (name ++ rest)).head?, isAsciiWhitespace b = false := by
  intro b hb
  rcases h with rfl | ⟨rfl, -⟩
  · obtain rfl : 45 = b := by simpa [asBytes_dashes] using hb
    decide
  · obtain ⟨c, more, rfl⟩ := token_head hname.token
    obtain rfl : c = b := by simpa using hb
    exact (graphic_of_token hname.token List.mem_cons_self).1

/-- A name and what follows it, up to its last byte, between blanks. -/
theorem OptionRequest.parse_spelled {w dashes name rest w' : Bytes} (hw : Blank w)
    (hw' : Blank w') (hdashes : Dashed dashes name) (hname : OptionName name)
    (hrest : NameEnds rest) (hclean : isCleanLine rest = true)
    (hlast : ∀ b ∈ (name ++ rest).getLast?, isAsciiWhitespace b = false) :
    OptionRequest.parse (w ++ (dashes ++ (name ++ rest)) ++ w') =
      .ok ⟨name, optionValue (trim rest)⟩ := by
  obtain ⟨text, htext⟩ := isToken_fromUtf8 hname.token
  have hline : isCleanLine (w ++ (dashes ++ (name ++ rest)) ++ w') = true := by
    simp only [isCleanLine_append, hw.clean, hw'.clean, hdashes.clean, isToken_clean hname.token,
      hclean, Bool.and_self]
  have hne : name ++ rest ≠ [] := by
    obtain ⟨c, more, rfl⟩ := token_head hname.token
    simp
  have hbare : Bare isAsciiWhitespace (dashes ++ (name ++ rest)) := by
    refine ⟨hdashes.head hname, fun b hb => ?_⟩
    rw [List.getLast?_append_of_ne_nil _ hne] at hb
    exact hlast b hb
  have htrim : trim (w ++ (dashes ++ (name ++ rest)) ++ w') = dashes ++ (name ++ rest) :=
    trimBy_unique hw.whitespace hw'.whitespace hbare
  have hnew : Command.new text [] = .ok ⟨text, [], by
      rw [fromUtf8_eq_some.mp htext]
      exact hname.token, rfl⟩ := Command.new_eq_ok.mpr ⟨rfl, rfl⟩
  unfold OptionRequest.parse
  rw [if_neg (by simpa [isCleanLine] using hline)]
  simp only [htrim, hdashes.strip hname hrest, findIdx_name hname hrest, List.take_left,
    List.drop_left, htext, Outcome.okOr_some, Outcome.ok_bind, hnew]

/-- What follows the equals sign, trimmed. -/
theorem optionValue_equals {w y : Bytes} (hw : Blank w)
    (hy : ∀ b ∈ y.getLast?, isAsciiWhitespace b = false) :
    optionValue (trim (w ++ equalsSign :: y)) = some (trim y) := by
  have hbare : Bare isAsciiWhitespace (equalsSign :: y) := by
    constructor
    · intro b hb
      obtain rfl : equalsSign = b := by simpa using hb
      decide
    · intro b hb
      cases y with
      | nil =>
          obtain rfl : equalsSign = b := by simpa using hb
          decide
      | cons c y =>
          rw [List.getLast?_cons_cons] at hb
          exact hy b hb
  have htrim : trim (w ++ equalsSign :: y) = equalsSign :: y := by
    have := @trimBy_unique _ isAsciiWhitespace w (equalsSign :: y) [] hw.whitespace (by simp) hbare
    rwa [List.append_nil] at this
  rw [htrim, optionValue, asBytes_equals, stripPrefix_cons, if_pos rfl, stripPrefix_nil]

/-- A value that does not begin with an equals sign is taken as it is. -/
theorem optionValue_plain {v : Bytes} (hne : v ≠ []) (hhead : v.head? ≠ some equalsSign) :
    optionValue v = some v := by
  have hnone : stripPrefix (asBytes "=") v = none := by
    cases v with
    | nil => exact absurd rfl hne
    | cons b v =>
        rw [asBytes_equals, stripPrefix_cons, if_neg]
        rintro rfl
        exact hhead rfl
  rw [optionValue, hnone]
  exact if_neg hne

theorem nameEnds_equals {w : Bytes} (hw : Blank w) (y : Bytes) :
    NameEnds (w ++ equalsSign :: y) := by
  intro b hb
  cases w with
  | nil =>
      obtain rfl : equalsSign = b := by simpa using hb
      exact Or.inr (Or.inr rfl)
  | cons c w =>
      obtain rfl : c = b := by simpa using hb
      rcases hw c List.mem_cons_self with h | h
      · exact Or.inl h
      · exact Or.inr (Or.inl h)

theorem trim_blank {w v : Bytes} (hw : Blank w) (hv : Bare isAsciiWhitespace v) :
    trim (w ++ v) = v := by
  have hsides := @trimBy_unique _ isAsciiWhitespace w v [] hw.whitespace (by simp) hv
  rwa [List.append_nil] at hsides

/-- `n=` with only blanks after it: they are at the end of the line. -/
theorem OptionRequest.parse_empty {w₀ dashes n w₁ w₃ : Bytes} (hw₀ : Blank w₀) (hw₁ : Blank w₁)
    (hw₃ : Blank w₃) (hn : OptionName n) (hdashes : Dashed dashes n) :
    OptionRequest.parse (w₀ ++ (dashes ++ (n ++ (w₁ ++ [equalsSign]))) ++ w₃) =
      .ok ⟨n, some []⟩ := by
  have hclean : isCleanLine (w₁ ++ [equalsSign]) = true := by
    rw [isCleanLine_append, hw₁.clean]
    rfl
  have hlast : ∀ b ∈ (n ++ (w₁ ++ [equalsSign])).getLast?, isAsciiWhitespace b = false := by
    intro b hb
    obtain rfl : equalsSign = b := by simpa using hb
    decide
  rw [OptionRequest.parse_spelled hw₀ hw₃ hdashes hn (nameEnds_equals hw₁ []) hclean hlast,
    optionValue_equals hw₁ (by simp)]
  rfl

/-- `n=v`. -/
theorem OptionRequest.parse_equals {w₀ dashes n w₁ w₂ v w₃ : Bytes} (hw₀ : Blank w₀)
    (hw₁ : Blank w₁) (hw₂ : Blank w₂) (hw₃ : Blank w₃) (hn : OptionName n)
    (hdashes : Dashed dashes n) (hclean : isCleanLine v = true)
    (hbare : Bare isAsciiWhitespace v) (hv : v ≠ []) :
    OptionRequest.parse (w₀ ++ (dashes ++ (n ++ (w₁ ++ equalsSign :: (w₂ ++ v)))) ++ w₃) =
      .ok ⟨n, some v⟩ := by
  have hrest : isCleanLine (w₁ ++ equalsSign :: (w₂ ++ v)) = true := by
    rw [isCleanLine_append, isCleanLine_cons, isCleanLine_append, hw₁.clean, hw₂.clean, hclean]
    rfl
  have hlast : ∀ x : Bytes, ∀ b ∈ (x ++ v).getLast?, isAsciiWhitespace b = false := by
    intro x b hb
    rw [List.getLast?_append_of_ne_nil _ hv] at hb
    exact hbare.last b hb
  have hshape : n ++ (w₁ ++ equalsSign :: (w₂ ++ v)) = (n ++ w₁ ++ equalsSign :: w₂) ++ v := by
    simp only [List.append_assoc, List.cons_append]
  rw [OptionRequest.parse_spelled hw₀ hw₃ hdashes hn (nameEnds_equals hw₁ _) hrest
    (by rw [hshape]; exact hlast _), optionValue_equals hw₁ (hlast w₂), trim_blank hw₂ hbare]

/-- `n v`. -/
theorem OptionRequest.parse_blank {w₀ dashes n w v w₃ : Bytes} (hw₀ : Blank w₀) (hw : Blank w)
    (hw₃ : Blank w₃) (hn : OptionName n) (hdashes : Dashed dashes n)
    (hclean : isCleanLine v = true) (hbare : Bare isAsciiWhitespace v) (hne : w ≠ [])
    (hv : v ≠ []) (hhead : v.head? ≠ some equalsSign) :
    OptionRequest.parse (w₀ ++ (dashes ++ (n ++ (w ++ v))) ++ w₃) = .ok ⟨n, some v⟩ := by
  have hends : NameEnds (w ++ v) := by
    intro b hb
    rw [List.head?_append_of_ne_nil _ hne] at hb
    rcases hw b (List.mem_of_head? hb) with h | h
    · exact Or.inl h
    · exact Or.inr (Or.inl h)
  have hrest : isCleanLine (w ++ v) = true := by
    rw [isCleanLine_append, hw.clean, hclean]
    rfl
  have hlast : ∀ b ∈ (n ++ (w ++ v)).getLast?, isAsciiWhitespace b = false := by
    intro b hb
    rw [← List.append_assoc, List.getLast?_append_of_ne_nil _ hv] at hb
    exact hbare.last b hb
  rw [OptionRequest.parse_spelled hw₀ hw₃ hdashes hn hends hrest hlast, trim_blank hw hbare,
    optionValue_plain hv hhead]

/-- `n` alone. -/
theorem OptionRequest.parse_name {w₀ dashes n w₃ : Bytes} (hw₀ : Blank w₀) (hw₃ : Blank w₃)
    (hn : OptionName n) (hdashes : Dashed dashes n) :
    OptionRequest.parse (w₀ ++ (dashes ++ (n ++ [])) ++ w₃) = .ok ⟨n, none⟩ := by
  have hlast : ∀ b ∈ (n ++ []).getLast?, isAsciiWhitespace b = false := by
    intro b hb
    rw [List.append_nil] at hb
    exact (graphic_of_token hn.token (List.mem_of_getLast? hb)).1
  rw [OptionRequest.parse_spelled hw₀ hw₃ hdashes hn (by simp [NameEnds]) rfl hlast]
  rfl

/-! ## §3  What any line can give -/

/-- The name and the value are separate parts of the line, in this order. -/
def OptionRequest.PartOf (r : OptionRequest) (bytes : Bytes) : Prop :=
  ∃ before after, bytes = before ++ r.name ++ after ∧
    ∀ v, r.value = some v → ∃ between rest, after = between ++ v ++ rest

theorem not_mem_take_findIdx {body : Bytes} :
    equalsSign ∉ body.take (body.findIdx fun b => decide (b = space ∨ b = 9 ∨ b = 61)) := by
  intro hmem
  obtain ⟨i, hi, hget⟩ := List.mem_iff_getElem.mp hmem
  rw [List.length_take] at hi
  rw [List.getElem_take] at hget
  have hnot := List.not_of_lt_findIdx (Nat.lt_of_lt_of_le hi (Nat.min_le_left _ _))
  rw [hget] at hnot
  exact absurd hnot (by decide)

theorem optionValue_spec {rest v : Bytes} (h : optionValue (trim rest) = some v) :
    trim v = v ∧ ∃ between after, rest = between ++ v ++ after := by
  obtain ⟨a, b, hrest, -, -, hbare⟩ := @trimBy_spec _ isAsciiWhitespace rest
  rw [← trim_eq] at hrest hbare
  unfold optionValue at h
  cases hstrip : stripPrefix (asBytes "=") (trim rest) with
  | some y =>
      rw [hstrip] at h
      obtain rfl := Option.some.inj h
      obtain ⟨c, d, hy, -, -, hvalue⟩ := @trimBy_spec _ isAsciiWhitespace y
      rw [← trim_eq] at hy hvalue
      refine ⟨trimBy_eq_self hvalue, a ++ asBytes "=" ++ c, d ++ b, ?_⟩
      rw [stripPrefix_eq_some] at hstrip
      calc rest = a ++ trim rest ++ b := hrest
        _ = a ++ (asBytes "=" ++ (c ++ trim y ++ d)) ++ b := by rw [hstrip, ← hy]
        _ = a ++ asBytes "=" ++ c ++ trim y ++ (d ++ b) := by simp only [List.append_assoc]
  | none =>
      simp only [hstrip] at h
      by_cases hempty : trim rest = []
      · rw [if_pos hempty] at h
        exact absurd h (by simp)
      · rw [if_neg hempty] at h
        obtain rfl := Option.some.inj h
        exact ⟨trimBy_eq_self hbare, a, b, hrest⟩

theorem OptionRequest.parse_sound {bytes : Bytes} {r : OptionRequest}
    (h : OptionRequest.parse bytes = .ok r) :
    isCleanLine bytes = true ∧ OptionName r.name ∧ (∀ v, r.value = some v → trim v = v) ∧
      r.PartOf bytes := by
  unfold OptionRequest.parse at h
  by_cases hforbidden : bytes.any isForbidden
  · rw [if_pos hforbidden] at h
    exact absurd h (by simp)
  rw [if_neg hforbidden] at h
  obtain ⟨a, b, hbytes, -, -, -⟩ := @trimBy_spec _ isAsciiWhitespace bytes
  rw [← trim_eq] at hbytes
  simp only at h
  generalize hbody : (stripPrefix (asBytes "--") (trim bytes)).getD (trim bytes) = body at h
  -- the prefix, if any, is in front of the name
  obtain ⟨dashes, hdashes⟩ : ∃ dashes, trim bytes = dashes ++ body := by
    cases hstrip : stripPrefix (asBytes "--") (trim bytes) with
    | none =>
        rw [hstrip, Option.getD_none] at hbody
        exact ⟨[], by rw [hbody, List.nil_append]⟩
    | some tail =>
        rw [hstrip, Option.getD_some] at hbody
        exact ⟨asBytes "--", by rw [← hbody]; exact stripPrefix_eq_some.mp hstrip⟩
  obtain ⟨text, htext, h⟩ := Outcome.bind_eq_ok.mp h
  obtain ⟨command, hcommand, h⟩ := Outcome.bind_eq_ok.mp h
  obtain rfl := Outcome.ok.inj h
  rw [Outcome.okOr_eq_ok, fromUtf8_eq_some] at htext
  obtain ⟨hname, -⟩ := Command.new_eq_ok.mp hcommand
  have htoken := command.name_token
  rw [hname, htext] at htoken
  refine ⟨by simpa [isCleanLine] using hforbidden, ⟨htoken, not_mem_take_findIdx⟩,
    fun v hv => (optionValue_spec hv).1, a ++ dashes,
    body.drop (body.findIdx fun b => decide (b = space ∨ b = 9 ∨ b = 61)) ++ b, ?_, fun v hv => ?_⟩
  · calc bytes = a ++ (dashes ++ body) ++ b := by rw [← hdashes]; exact hbytes
      _ = a ++ dashes ++ body ++ b := by simp only [List.append_assoc]
      _ = _ := by
        conv_lhs =>
          rw [← List.take_append_drop
            (body.findIdx fun b => decide (b = space ∨ b = 9 ∨ b = 61)) body]
        simp only [List.append_assoc]
  · obtain ⟨-, between, after, hrest⟩ := optionValue_spec hv
    exact ⟨between, after ++ b, by rw [hrest, List.append_assoc]⟩

/-- **Option requests.** Every spelling of a name and a value is parsed back to
them, with no value kept apart from an empty one. From any line at all come only
a token without an equals sign and a trimmed value, separate parts of the line in
this order; a line with a forbidden byte is refused. -/
theorem OptionRequest.parse_inverts :
    (∀ w₀ dashes n w₁ w₂ v w₃ : Bytes, Blank w₀ → Blank w₁ → Blank w₂ → Blank w₃ →
      OptionName n → Dashed dashes n → isCleanLine v = true → trim v = v →
      OptionRequest.parse (w₀ ++ dashes ++ n ++ w₁ ++ [equalsSign] ++ w₂ ++ v ++ w₃) =
        .ok ⟨n, some v⟩) ∧
    (∀ w₀ dashes n w v w₃ : Bytes, Blank w₀ → Blank w → Blank w₃ → OptionName n →
      Dashed dashes n → isCleanLine v = true → trim v = v → w ≠ [] → v ≠ [] →
      v.head? ≠ some equalsSign →
      OptionRequest.parse (w₀ ++ dashes ++ n ++ w ++ v ++ w₃) = .ok ⟨n, some v⟩) ∧
    (∀ w₀ dashes n w₃ : Bytes, Blank w₀ → Blank w₃ → OptionName n → Dashed dashes n →
      OptionRequest.parse (w₀ ++ dashes ++ n ++ w₃) = .ok ⟨n, none⟩) ∧
    (∀ bytes r, OptionRequest.parse bytes = .ok r →
      isToken r.name = true ∧ equalsSign ∉ r.name ∧ (∀ v, r.value = some v → trim v = v) ∧
      ∃ before after, bytes = before ++ r.name ++ after ∧
        ∀ v, r.value = some v → ∃ between rest, after = between ++ v ++ rest) ∧
    ∀ bytes : Bytes, (∃ b ∈ bytes, b = 0 ∨ b = cr ∨ b = lf) →
      OptionRequest.parse bytes = .err .invalidLine := by
  refine ⟨?_, ?_, ?_, ?_, ?_⟩
  · intro w₀ dashes n w₁ w₂ v w₃ hw₀ hw₁ hw₂ hw₃ hn hdashes hclean htrim
    by_cases hv : v = []
    · have hempty := OptionRequest.parse_empty hw₀ hw₁ (hw₂.append hw₃) hn hdashes
      rw [hv]
      simpa only [List.append_assoc, List.nil_append] using hempty
    · have hequals := OptionRequest.parse_equals hw₀ hw₁ hw₂ hw₃ hn hdashes hclean
        (bare_iff.mpr htrim) hv
      simpa only [List.append_assoc, List.cons_append, List.nil_append] using hequals
  · intro w₀ dashes n w v w₃ hw₀ hw hw₃ hn hdashes hclean htrim hne hv hhead
    have hblank := OptionRequest.parse_blank hw₀ hw hw₃ hn hdashes hclean (bare_iff.mpr htrim)
      hne hv hhead
    simpa only [List.append_assoc] using hblank
  · intro w₀ dashes n w₃ hw₀ hw₃ hn hdashes
    have hname := OptionRequest.parse_name hw₀ hw₃ hn hdashes
    simpa only [List.append_assoc, List.append_nil] using hname
  · intro bytes r h
    obtain ⟨-, hname, hvalue, hparts⟩ := OptionRequest.parse_sound h
    exact ⟨hname.token, hname.no_equals, hvalue, hparts⟩
  · rintro bytes ⟨b, hb, hforbidden⟩
    have hany : bytes.any isForbidden = true := by
      rw [List.any_eq_true]
      refine ⟨b, hb, ?_⟩
      rcases hforbidden with rfl | rfl | rfl <;> decide
    rw [OptionRequest.parse, if_pos hany]

/-- ` --name = a=b` and a tab. -/
theorem OptionRequest.parse_inverts_padded :
    OptionRequest.parse ([32] ++ asBytes "--" ++ asBytes "name" ++ [32] ++ [equalsSign] ++ [32] ++
        asBytes "a=b" ++ [9]) =
      .ok ⟨asBytes "name", some (asBytes "a=b")⟩ := by
  have hblank : Blank [32] := by simp [Blank, space]
  have htab : Blank [9] := by simp [Blank]
  exact OptionRequest.parse_inverts.1 [32] (asBytes "--") (asBytes "name") [32] [32] (asBytes "a=b")
    [9] hblank hblank hblank htab ⟨by decide, by decide⟩ (Or.inl rfl) (by decide) (by decide)

end Assuan
