import Assuan.Foundation.Buffer
import Mathlib.Data.Nat.Digits.Lemmas

/-!
# Decimal numerals as bytes

`decimal n` is the ASCII numeral of `n` without leading zeros. Two loops use
it: a writer that fills a fixed array from its end (`digitLoop`), and a reader
that accumulates digits with checked arithmetic (`checkedPush`). Both are
stated for any array size and any integer width.
-/

namespace Assuan

/-- `b'0' + d`. -/
def digitByte (d : ℕ) : UInt8 := UInt8.ofNat (48 + d)

/-- `u8::is_ascii_digit`. -/
def isAsciiDigit (b : UInt8) : Bool := 48 ≤ b ∧ b ≤ 57

/-- `byte - b'0'` of a digit. -/
def digitValue (b : UInt8) : ℕ := b.toNat - 48

/-- The numeral of `n`, most significant digit first; `0` is `"0"`. -/
def decimal (n : ℕ) : Bytes :=
  if n = 0 then [digitByte 0] else ((Nat.digits 10 n).reverse).map digitByte

/-- The number a digit string denotes, leading zeros allowed. -/
def decimalValue (acc : ℕ) (ds : Bytes) : ℕ :=
  ds.foldl (fun a b => a * 10 + digitValue b) acc

theorem digitByte_toNat {d : ℕ} (h : d < 10) : (digitByte d).toNat = 48 + d := by
  unfold digitByte
  rw [UInt8.toNat_ofNat', Nat.mod_eq_of_lt (by omega)]

theorem isAsciiDigit_iff {b : UInt8} : isAsciiDigit b = true ↔ 48 ≤ b.toNat ∧ b.toNat ≤ 57 := by
  simp [isAsciiDigit, UInt8.le_iff_toNat_le]

theorem isAsciiDigit_digitByte {d : ℕ} (h : d < 10) : isAsciiDigit (digitByte d) = true := by
  rw [isAsciiDigit_iff, digitByte_toNat h]
  omega

theorem digitValue_digitByte {d : ℕ} (h : d < 10) : digitValue (digitByte d) = d := by
  rw [digitValue, digitByte_toNat h]
  omega

theorem digitByte_digitValue {b : UInt8} (h : isAsciiDigit b = true) :
    digitByte (digitValue b) = b := by
  rw [isAsciiDigit_iff] at h
  apply UInt8.toNat_inj.mp
  rw [digitByte, UInt8.toNat_ofNat', digitValue]
  omega

theorem decimal_lt {n : ℕ} (h : n < 10) : decimal n = [digitByte n] := by
  unfold decimal
  split
  · next h0 => rw [h0]
  · next h0 => rw [Nat.digits_of_lt 10 n h0 h]; rfl

theorem decimal_ge {n : ℕ} (h : 10 ≤ n) :
    decimal n = decimal (n / 10) ++ [digitByte (n % 10)] := by
  have hq : n / 10 ≠ 0 := by omega
  rw [decimal, if_neg (by omega), decimal, if_neg hq,
    Nat.digits_def' (by decide) (by omega)]
  simp

theorem decimal_ne_nil (n : ℕ) : decimal n ≠ [] := by
  rcases Nat.lt_or_ge n 10 with h | h
  · simp [decimal_lt h]
  · simp [decimal_ge h]

theorem isAsciiDigit_of_mem_decimal (n : ℕ) : ∀ b ∈ decimal n, isAsciiDigit b = true := by
  induction n using Nat.strongRecOn with
  | ind n ih =>
      rcases Nat.lt_or_ge n 10 with h | h
      · rw [decimal_lt h]
        intro b hb
        rw [List.mem_singleton.mp hb]
        exact isAsciiDigit_digitByte h
      · rw [decimal_ge h]
        intro b hb
        rcases List.mem_append.mp hb with hb | hb
        · exact ih (n / 10) (by omega) b hb
        · rw [List.mem_singleton.mp hb]
          exact isAsciiDigit_digitByte (by omega)

theorem decimal_length_le {k n : ℕ} (h : n < 10 ^ (k + 1)) : (decimal n).length ≤ k + 1 := by
  induction k generalizing n with
  | zero => rw [decimal_lt (by simpa using h)]; exact Nat.le_refl _
  | succ k ih =>
      rcases Nat.lt_or_ge n 10 with hlt | hge
      · simp [decimal_lt hlt]
      · have hq : n / 10 < 10 ^ (k + 1) := by
          rw [Nat.div_lt_iff_lt_mul (by decide), ← Nat.pow_succ]
          exact h
        rw [decimal_ge hge, List.length_append, List.length_singleton]
        exact Nat.succ_le_succ (ih hq)

theorem decimalValue_append (acc : ℕ) (ds ds' : Bytes) :
    decimalValue acc (ds ++ ds') = decimalValue (decimalValue acc ds) ds' := by
  simp [decimalValue, List.foldl_append]

/-- Reading the numeral of `n` gives `n`. -/
theorem decimalValue_decimal (n : ℕ) : decimalValue 0 (decimal n) = n := by
  induction n using Nat.strongRecOn with
  | ind n ih =>
      rcases Nat.lt_or_ge n 10 with h | h
      · rw [decimal_lt h]
        simp [decimalValue, digitValue_digitByte h]
      · rw [decimal_ge h, decimalValue_append, ih (n / 10) (by omega)]
        simp only [decimalValue, List.foldl_cons, List.foldl_nil]
        rw [digitValue_digitByte (by omega)]
        omega

/-! ## Writing digits from the end of an array -/

/-- The loop `start -= 1; digits[start] = b'0' + value % 10; value /= 10` until
the value is zero. Returns the position of the first digit. -/
def digitLoop {ε : Type} {k : ℕ} (value : ℕ) :
    ℕ → Buffer k → Outcome ε (ℕ × Buffer k)
  | 0, _ => .panic
  | start + 1, digits =>
      match digits.set start (digitByte (value % 10)) with
      | none => .panic
      | some digits =>
          if value / 10 = 0 then .ok (start, digits)
          else digitLoop (value / 10) start digits

theorem digitLoop_spec {ε : Type} {k : ℕ} {value start : ℕ} {digits : Buffer k}
    (hstart : start ≤ k) (hroom : (decimal value).length ≤ start) :
    ∃ position out, (digitLoop value start digits : Outcome ε (ℕ × Buffer k)) =
        .ok (position, out) ∧
      out.bytes.drop position = decimal value ++ digits.bytes.drop start := by
  induction start generalizing value digits with
  | zero =>
      have := List.length_pos_of_ne_nil (decimal_ne_nil value)
      omega
  | succ start ih =>
      have hset : digits.set start (digitByte (value % 10)) =
          some ⟨digits.bytes.set start (digitByte (value % 10)), by simp [digits.size]⟩ :=
        if_pos (by omega)
      have hdrop : (digits.bytes.set start (digitByte (value % 10))).drop start =
          digitByte (value % 10) :: digits.bytes.drop (start + 1) := by
        have hlt : start < digits.bytes.length := by rw [digits.size]; omega
        rw [List.drop_eq_getElem_cons (by simpa using hlt), List.getElem_set_self,
          List.drop_set, if_pos (Nat.lt_succ_self _)]
      rw [digitLoop, hset]
      by_cases hz : value / 10 = 0
      · refine ⟨start, _, if_pos hz, ?_⟩
        rw [decimal_lt (by omega), hdrop, Nat.mod_eq_of_lt (by omega)]
        rfl
      · have hge : 10 ≤ value := by omega
        rw [decimal_ge hge, List.length_append, List.length_singleton] at hroom
        obtain ⟨position, out, hrun, hout⟩ := @ih (value / 10)
          ⟨digits.bytes.set start (digitByte (value % 10)), by simp [digits.size]⟩
          (by omega) (by omega)
        refine ⟨position, out, (if_neg hz).trans hrun, ?_⟩
        rw [hout, hdrop, decimal_ge hge]
        simp

/-! ## Reading digits with checked arithmetic -/

/-- `checked_mul(10).and_then(|v| v.checked_add(digit))`. -/
def checkedPush (max acc : ℕ) (digit : UInt8) : Option ℕ :=
  (checkedMul max acc 10).bind fun value => checkedAdd max value (digitValue digit)

theorem checkedPush_eq_some {max acc : ℕ} {digit : UInt8} {value : ℕ} :
    checkedPush max acc digit = some value ↔
      acc * 10 + digitValue digit ≤ max ∧ value = acc * 10 + digitValue digit := by
  unfold checkedPush
  rw [Option.bind_eq_some_iff]
  constructor
  · rintro ⟨v, hv, hadd⟩
    obtain ⟨-, rfl⟩ := checkedMul_eq_some.mp hv
    exact checkedAdd_eq_some.mp hadd
  · rintro ⟨hle, rfl⟩
    exact ⟨acc * 10, checkedMul_eq_some.mpr ⟨by omega, rfl⟩,
      checkedAdd_eq_some.mpr ⟨hle, rfl⟩⟩

/-- The value of a numeral only grows as digits are read. -/
theorem le_decimalValue (acc : ℕ) (ds : Bytes) : acc ≤ decimalValue acc ds := by
  induction ds generalizing acc with
  | nil => exact Nat.le_refl _
  | cons d ds ih =>
      have := ih (acc * 10 + digitValue d)
      simp only [decimalValue, List.foldl_cons] at this ⊢
      omega

/-! ## Numerals without leading zeros -/

/-- A digit string that `decimal` writes: no leading zero. -/
def CanonicalDigits (ds : Bytes) : Prop :=
  ds ≠ [] ∧ (∀ d ∈ ds, isAsciiDigit d = true) ∧
    (2 ≤ ds.length → ds.head? ≠ some (digitByte 0))

theorem decimalValue_pos {ds : Bytes} (h : ∀ d ∈ ds, isAsciiDigit d = true) (hne : ds ≠ [])
    (hhead : ds.head? ≠ some (digitByte 0)) : 0 < decimalValue 0 ds := by
  cases ds with
  | nil => exact absurd rfl hne
  | cons d ds =>
      have hd : digitValue d ≠ 0 := by
        intro hz
        apply hhead
        rw [List.head?_cons, ← hz, digitByte_digitValue (h d List.mem_cons_self)]
      have hle := le_decimalValue (digitValue d) ds
      have hcons : decimalValue 0 (d :: ds) = decimalValue (digitValue d) ds := by
        simp [decimalValue]
      omega

/-- A canonical digit string is the numeral of its value. -/
theorem decimal_decimalValue {ds : Bytes} (h : CanonicalDigits ds) :
    decimal (decimalValue 0 ds) = ds := by
  -- from the last digit, as `decimal` divides by ten
  induction ds using List.reverseRecOn with
  | nil => exact absurd rfl h.1
  | append_singleton init d ih =>
      obtain ⟨-, hdigits, hhead⟩ := h
      have hd : isAsciiDigit d = true := hdigits d (by simp)
      have hlt : digitValue d < 10 := by
        rw [isAsciiDigit_iff] at hd
        unfold digitValue
        omega
      have hvalue : decimalValue 0 (init ++ [d]) = decimalValue 0 init * 10 + digitValue d := by
        rw [decimalValue_append]
        rfl
      rw [hvalue]
      by_cases hinit : init = []
      · subst hinit
        simp only [decimalValue, List.foldl_nil, Nat.zero_mul, Nat.zero_add, List.nil_append]
        rw [decimal_lt hlt, digitByte_digitValue hd]
      · have hpos := List.length_pos_of_ne_nil hinit
        have hhead' : init.head? ≠ some (digitByte 0) := by
          have := hhead (by simp only [List.length_append, List.length_singleton]; omega)
          rwa [List.head?_append_of_ne_nil _ hinit] at this
        have hinitDigits : ∀ d ∈ init, isAsciiDigit d = true := by
          intro x hx
          exact hdigits x (List.mem_append_left _ hx)
        have hvpos := decimalValue_pos hinitDigits hinit hhead'
        have hdiv : (decimalValue 0 init * 10 + digitValue d) / 10 = decimalValue 0 init := by
          omega
        have hmod : (decimalValue 0 init * 10 + digitValue d) % 10 = digitValue d := by omega
        rw [decimal_ge (by omega), hdiv, hmod, ih ⟨hinit, hinitDigits, fun _ => hhead'⟩,
          digitByte_digitValue hd]

/-- The numeral of a value is any of its spellings without leading zeros. -/
theorem decimal_suffix {ds : Bytes} (h : ∀ d ∈ ds, isAsciiDigit d = true) (hne : ds ≠ []) :
    decimal (decimalValue 0 ds) <:+ ds := by
  induction ds with
  | nil => exact absurd rfl hne
  | cons d rest ih =>
      by_cases hzero : d = digitByte 0 ∧ rest ≠ []
      · obtain ⟨rfl, hrest⟩ := hzero
        have hvalue : decimalValue 0 (digitByte 0 :: rest) = decimalValue 0 rest := rfl
        rw [hvalue]
        exact (ih (fun b hb => h b (List.mem_cons_of_mem _ hb)) hrest).trans
          (List.suffix_cons _ _)
      · have hcanon : CanonicalDigits (d :: rest) := by
          refine ⟨hne, h, fun hlen hhead => hzero ⟨?_, ?_⟩⟩
          · exact Option.some.inj hhead
          · rintro rfl
            simp at hlen
        rw [decimal_decimalValue hcanon]

theorem decimal_head_ne_zero {n : ℕ} (h : 10 ≤ n) : (decimal n).head? ≠ some (digitByte 0) := by
  induction n using Nat.strongRecOn with
  | ind n ih =>
      rw [decimal_ge h, List.head?_append_of_ne_nil _ (decimal_ne_nil _)]
      by_cases hq : 10 ≤ n / 10
      · exact ih (n / 10) (by omega) hq
      · rw [decimal_lt (by omega), List.head?_cons]
        intro heq
        have hbyte := Option.some.inj heq
        have h1 := digitByte_toNat (d := n / 10) (by omega)
        have h0 := digitByte_toNat (d := 0) (by omega)
        rw [hbyte, h0] at h1
        omega

theorem canonicalDigits_decimal (n : ℕ) : CanonicalDigits (decimal n) := by
  refine ⟨decimal_ne_nil n, isAsciiDigit_of_mem_decimal n, fun hlen => ?_⟩
  by_cases h : 10 ≤ n
  · exact decimal_head_ne_zero h
  · rw [decimal_lt (by omega)] at hlen
    simp at hlen

end Assuan
