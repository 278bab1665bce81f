import Assuan.Transport.Discovery

/-!
# Which socket files are accepted

The reads gather the first 23 bytes of the file whatever their sizes, one more
than the longest valid file has. The parser then accepts a port, a line feed and
16 bytes, of which the line feed is the first one in the file.
-/

namespace Assuan

/-! ## §1  Reading -/

section Reading

variable {n : ℕ} {reserve : ℕ → Bool}

/-- No read of the file fails. -/
def Readable (reads : List FileRead) : Prop := ∀ r ∈ reads, r ≠ .failed

theorem Readable.head {reads : List FileRead} (h : Readable reads) :
    ∃ size, reads.headD (.upTo n) = .upTo size := by
  cases reads with
  | nil => exact ⟨n, rfl⟩
  | cons r reads =>
      cases r with
      | upTo size => exact ⟨size, rfl⟩
      | failed => exact absurd rfl (h _ List.mem_cons_self)

theorem Readable.tail {reads : List FileRead} (h : Readable reads) : Readable reads.tail :=
  fun r hr => h r (List.mem_of_mem_tail hr)

/-- What one read takes, and what the following ones take. -/
theorem fileRead_resume (size room : ℕ) (rest : Bytes) :
    fileRead size room rest ++ (rest.drop (fileRead size room rest).length).take
      (room - (fileRead size room rest).length) = rest.take room := by
  have hle : min (max 1 size) room ≤ room := Nat.min_le_right _ _
  unfold fileRead
  generalize min (max 1 size) room = k at hle
  by_cases hk : k ≤ rest.length
  · have hlen : (rest.take k).length = k := by rw [List.length_take, Nat.min_eq_left hk]
    rw [hlen, ← List.take_add, Nat.add_sub_cancel' hle]
  · rw [List.take_of_length_le (by omega), List.drop_length, List.take_nil, List.append_nil,
      List.take_of_length_le (by omega)]

/-- The loop fills the buffer, or comes to the end of the file. -/
theorem readFile_eq (hn : n ≤ usizeMax) {fuel : ℕ} {reads : List FileRead} {rest got : Bytes}
    (hreads : Readable reads) (hgot : got.length ≤ n) (hfuel : n - got.length < fuel) :
    readFile fuel reads rest (Buffer.pad n got) got.length =
      .ok (Buffer.pad n (got ++ rest.take (n - got.length)),
        (got ++ rest.take (n - got.length)).length) := by
  induction fuel generalizing reads rest got with
  | zero => omega
  | succ fuel ih =>
      rw [readFile]
      by_cases hroom : got.length < n
      · obtain ⟨size, hsize⟩ := @Readable.head n _ hreads
        rw [if_pos hroom, hsize]
        simp only
        have hread : (fileRead size (n - got.length) rest).length ≤ n - got.length := by
          rw [fileRead, List.length_take]
          omega
        by_cases hempty : (fileRead size (n - got.length) rest).length = 0
        · -- only the end of the file gives an empty read
          have hrest : rest = [] := by
            rw [fileRead, List.length_take] at hempty
            rw [← List.length_eq_zero_iff]
            omega
          rw [if_pos hempty, hrest, List.take_nil, List.append_nil]
        · rw [if_neg hempty, Buffer.copyAt_pad (by omega), Outcome.index_some, Outcome.ok_bind,
            checkedAdd_eq_some.mpr ⟨by omega, rfl⟩, Outcome.index_some, Outcome.ok_bind,
            ← List.length_append]
          have hlen : (got ++ fileRead size (n - got.length) rest).length =
              got.length + (fileRead size (n - got.length) rest).length := List.length_append
          rw [ih hreads.tail (by omega) (by omega), hlen]
          have hparts := fileRead_resume size (n - got.length) rest
          rw [← Nat.sub_sub, List.append_assoc, hparts]
      · have hfull : n - got.length = 0 := by omega
        rw [if_neg hroom, hfull, List.take_zero, List.append_nil]

/-- The first 23 bytes, whatever the reads. -/
theorem gatherSocketFile_eq (hreserve : ∀ k, reserve k = true) {file : SocketFile}
    (hopens : file.opens = true) (hregular : file.isFile = some true)
    (hreads : Readable file.reads) : gatherSocketFile reserve file = .ok (file.content.take 23) := by
  have hloop := @readFile_eq 23 (by decide) 24 file.reads file.content [] hreads (Nat.zero_le _)
    (by decide)
  have hlen : (file.content.take 23).length ≤ 23 := by
    rw [List.length_take]
    exact Nat.min_le_left _ _
  rw [List.nil_append, Buffer.pad_nil] at hloop
  have hbuffer : protectedBuffer reserve 23 = .ok (Buffer.zero 23) := if_pos (hreserve 23)
  unfold gatherSocketFile
  rw [hopens, hregular]
  simp only [hbuffer, Outcome.mapErr_ok, Outcome.ok_bind, Bool.true_eq_false, if_false]
  rw [show (0 : ℕ) = ([] : Bytes).length from rfl, hloop]
  simp only [Outcome.ok_bind, List.length_nil]
  rw [Buffer.slice_pad (Nat.zero_le _) (Nat.le_refl _) hlen, List.take_length, List.drop_zero]
  rfl

end Reading

/-! ## §2  Parsing -/

section Parsing

variable {reserve : ℕ → Bool}

theorem checkedSub_eq_some {a b c : ℕ} : checkedSub a b = some c ↔ b ≤ a ∧ c = a - b := by
  unfold checkedSub
  by_cases h : b ≤ a
  · simp [h, eq_comm]
  · simp [h]

/-- A digit is accumulated as `checked_mul` and `checked_add` allow. -/
theorem portLoop_cons {port : ℕ} {digit : UInt8} {digits : Bytes}
    (hd : isAsciiDigit digit = true) :
    portLoop port (digit :: digits) =
      Outcome.okOr (.discovery .invalidOutput) (checkedPush u16Max port digit) >>=
        fun port => portLoop port digits := by
  have hsub : checkedSub digit.toNat 48 = some (digitValue digit) :=
    checkedSub_eq_some.mpr ⟨(isAsciiDigit_iff.mp hd).1, rfl⟩
  rw [portLoop, if_neg (by simp [hd]), hsub]
  rfl

/-- The port is the value of the digits, when it is a `u16`. -/
theorem portLoop_eq_ok {port value : ℕ} {digits : Bytes} (hport : port ≤ u16Max) :
    portLoop port digits = .ok value ↔
      (∀ d ∈ digits, isAsciiDigit d = true) ∧ decimalValue port digits ≤ u16Max ∧
        value = decimalValue port digits := by
  induction digits generalizing port with
  | nil =>
      rw [portLoop, Outcome.ok.injEq]
      simp only [decimalValue, List.foldl_nil]
      constructor
      · rintro rfl
        exact ⟨by simp, hport, rfl⟩
      · rintro ⟨-, -, h⟩
        exact h.symm
  | cons d digits ih =>
      have hcons : decimalValue port (d :: digits) =
          decimalValue (port * 10 + digitValue d) digits := rfl
      have hstep := le_decimalValue (port * 10 + digitValue d) digits
      by_cases hd : isAsciiDigit d = true
      · rw [portLoop_cons hd, hcons, List.forall_mem_cons]
        by_cases hfits : port * 10 + digitValue d ≤ u16Max
        · rw [checkedPush_eq_some.mpr ⟨hfits, rfl⟩, Outcome.okOr_some, Outcome.ok_bind, ih hfits]
          simp only [hd, true_and]
        · have hnone : checkedPush u16Max port d = none := by
            cases hpush : checkedPush u16Max port d with
            | none => rfl
            | some value => exact absurd (checkedPush_eq_some.mp hpush).1 hfits
          rw [hnone, Outcome.okOr_none, Outcome.err_bind]
          constructor
          · intro h
            exact absurd h (by simp)
          · rintro ⟨-, hle, -⟩
            omega
      · rw [Bool.not_eq_true] at hd
        rw [portLoop, if_pos hd]
        simp [hd]

theorem portLoop_returns (port : ℕ) (digits : Bytes) : (portLoop port digits).Returns := by
  induction digits generalizing port with
  | nil => exact Outcome.returns_ok _
  | cons d digits ih =>
      by_cases hd : isAsciiDigit d = true
      · rw [portLoop_cons hd]
        exact (Outcome.returns_okOr _ _).bind fun port _ => ih port
      · rw [Bool.not_eq_true] at hd
        rw [portLoop, if_pos hd]
        exact Outcome.returns_err _

/-- One to five digits of a port, a line feed and 16 bytes. -/
structure NativeFormat (bytes digits nonce : Bytes) : Prop where
  shape : bytes = digits ++ lf :: nonce
  short : 1 ≤ digits.length ∧ digits.length ≤ 5
  ascii : ∀ d ∈ digits, isAsciiDigit d = true
  port : 1 ≤ decimalValue 0 digits ∧ decimalValue 0 digits ≤ 65535
  nonce : nonce.length = 16

/-- Loopback TCP with a port and a nonce. -/
def ResolvedEndpoint.native (port : ℕ) (nonce : Bytes) (h : nonce.length = 16) :
    ResolvedEndpoint :=
  ⟨.tcp ⟨.localhost, port⟩, some ⟨16, nonce, Nat.le_of_eq h⟩⟩

theorem extend_nonce {nonce : Bytes} (h : nonce.length = 16) :
    SecretBytes.extend ⟨16, [], Nat.zero_le _⟩ nonce = .ok ⟨16, nonce, Nat.le_of_eq h⟩ := by
  have hfits : ([] : Bytes).length + nonce.length ≤ 16 := by
    rw [List.length_nil]
    omega
  exact SecretBytes.extend_eq ⟨16, [], Nat.zero_le _⟩ (by decide) hfits

/-- The first line feed is where the digits end. -/
theorem NativeFormat.findIdx {bytes digits nonce : Bytes} (h : NativeFormat bytes digits nonce) :
    bytes.findIdx? (· == lf) = some digits.length := by
  rw [h.shape, List.findIdx?_append, List.findIdx?_eq_none_iff.mpr]
  · simp [List.findIdx?_cons]
  · intro d hd
    have hdigit := h.ascii d hd
    rw [beq_eq_false_iff_ne]
    rintro rfl
    exact absurd hdigit (by decide)

/-- A file that begins with a digit is not one of the emulation format. -/
theorem NativeFormat.not_socket {bytes digits nonce : Bytes} (h : NativeFormat bytes digits nonce) :
    ¬ asBytes "!<socket >" <+: bytes := by
  rintro ⟨tail, htail⟩
  obtain ⟨hpos, -⟩ := h.short
  cases digits with
  | nil => simp at hpos
  | cons d digits =>
      have hfirst : asBytes "!<socket >" = 33 :: asBytes "<socket >" := by decide
      have hd := h.ascii d List.mem_cons_self
      have hshape := h.shape
      rw [← htail, hfirst, List.cons_append, List.cons_append] at hshape
      rw [← (List.cons.inj hshape).1] at hd
      exact absurd hd (by decide)

theorem NativeFormat.length {bytes digits nonce : Bytes} (h : NativeFormat bytes digits nonce) :
    bytes.length = digits.length + 17 := by
  rw [h.shape, List.length_append, List.length_cons, h.nonce]

theorem parseNativeSocketFile_complete (hreserve : ∀ k, reserve k = true)
    {bytes digits nonce : Bytes} (h : NativeFormat bytes digits nonce) :
    parseNativeSocketFile reserve bytes =
      .ok (.native (decimalValue 0 digits) nonce h.nonce) := by
  obtain ⟨hpos, hfive⟩ := h.short
  have hlen := h.length
  have htail : (checkedSub bytes.length digits.length).bind (checkedSub · 1) = some 16 := by
    rw [checkedSub_eq_some.mpr ⟨by omega, rfl⟩, Option.bind_some]
    exact checkedSub_eq_some.mpr ⟨by omega, by omega⟩
  have htake : bytes.take digits.length = digits := by rw [h.shape, List.take_left]
  have hdrop : bytes.drop (digits.length + 1) = nonce := by
    rw [← List.drop_drop, h.shape, List.drop_left]
    rfl
  have hport : portLoop 0 digits = .ok (decimalValue 0 digits) :=
    (portLoop_eq_ok (Nat.zero_le _)).mpr ⟨h.ascii, h.port.2, rfl⟩
  have hstorage : secretWithCapacity reserve 16 = .ok ⟨16, [], Nat.zero_le _⟩ :=
    if_pos (hreserve 16)
  unfold parseNativeSocketFile
  rw [if_neg h.not_socket, if_neg (by omega), h.findIdx, Outcome.okOr_some, Outcome.ok_bind,
    if_neg (by omega), htail, Outcome.index_some, Outcome.ok_bind, if_neg (by simp),
    if_pos (by omega), Outcome.index_some, Outcome.ok_bind, htake, hport, Outcome.ok_bind,
    if_neg (by have := h.port.1; omega), hstorage, Outcome.mapErr_ok, Outcome.ok_bind,
    if_pos (by omega), Outcome.index_some, Outcome.ok_bind, hdrop, extend_nonce h.nonce,
    Outcome.mapErr_ok, Outcome.ok_bind]
  rfl

theorem parseNativeSocketFile_sound {bytes : Bytes}
    {r : ResolvedEndpoint} (h : parseNativeSocketFile reserve bytes = .ok r) :
    ∃ digits nonce, NativeFormat bytes digits nonce := by
  unfold parseNativeSocketFile at h
  by_cases hsocket : asBytes "!<socket >" <+: bytes
  · simp [hsocket] at h
  rw [if_neg hsocket] at h
  by_cases hlong : bytes.length > 22
  · simp [hlong] at h
  rw [if_neg hlong] at h
  obtain ⟨split, hfind, h⟩ := Outcome.bind_eq_ok.mp h
  rw [Outcome.okOr_eq_ok] at hfind
  obtain ⟨hlt, hbyte, -⟩ := List.findIdx?_eq_some_iff_getElem.mp hfind
  by_cases hsplit : split = 0 ∨ split > 5
  · rw [if_pos hsplit] at h
    exact absurd h (by simp)
  rw [if_neg hsplit] at h
  obtain ⟨tail, hsub, h⟩ := Outcome.bind_eq_ok.mp h
  obtain ⟨len, hlen, hsub⟩ := Option.bind_eq_some_iff.mp (Outcome.index_eq_ok.mp hsub)
  obtain ⟨-, rfl⟩ := checkedSub_eq_some.mp hlen
  obtain ⟨-, rfl⟩ := checkedSub_eq_some.mp hsub
  by_cases hnonce : bytes.length - split - 1 ≠ 16
  · rw [if_pos hnonce] at h
    exact absurd h (by simp)
  rw [if_neg hnonce, if_pos (by omega), Outcome.index_some, Outcome.ok_bind] at h
  obtain ⟨port, hport, h⟩ := Outcome.bind_eq_ok.mp h
  obtain ⟨hdigits, hle, rfl⟩ := (portLoop_eq_ok (Nat.zero_le _)).mp hport
  by_cases hzero : decimalValue 0 (bytes.take split) = 0
  · rw [if_pos hzero] at h
    exact absurd h (by simp)
  refine ⟨bytes.take split, bytes.drop (split + 1), ?_, ?_, hdigits, ⟨by omega, hle⟩, ?_⟩
  · have hlf : bytes[split] = lf := by simpa using hbyte
    rw [← hlf, ← List.drop_eq_getElem_cons hlt, List.take_append_drop]
  · rw [List.length_take]
    omega
  · rw [List.length_drop]
    omega

/-- No content makes the parser panic. -/
theorem parseNativeSocketFile_returns (bytes : Bytes) :
    (parseNativeSocketFile reserve bytes).Returns := by
  unfold parseNativeSocketFile
  by_cases hsocket : asBytes "!<socket >" <+: bytes
  · rw [if_pos hsocket]
    exact Outcome.returns_err _
  rw [if_neg hsocket]
  by_cases hlong : bytes.length > 22
  · rw [if_pos hlong]
    exact Outcome.returns_err _
  rw [if_neg hlong]
  refine (Outcome.returns_okOr _ _).bind fun split hfind => ?_
  obtain ⟨hlt, -, -⟩ :=
    List.findIdx?_eq_some_iff_getElem.mp (Outcome.okOr_eq_ok.mp hfind)
  by_cases hsplit : split = 0 ∨ split > 5
  · rw [if_pos hsplit]
    exact Outcome.returns_err _
  -- the line feed is inside the file, so neither subtraction overflows
  have htail : (checkedSub bytes.length split).bind (checkedSub · 1) =
      some (bytes.length - split - 1) := by
    rw [checkedSub_eq_some.mpr ⟨by omega, rfl⟩, Option.bind_some]
    exact checkedSub_eq_some.mpr ⟨by omega, rfl⟩
  rw [if_neg hsplit, htail, Outcome.index_some, Outcome.ok_bind]
  by_cases hnonce : bytes.length - split - 1 ≠ 16
  · rw [if_pos hnonce]
    exact Outcome.returns_err _
  rw [if_neg hnonce, if_pos (by omega), Outcome.index_some, Outcome.ok_bind]
  refine (portLoop_returns _ _).bind fun port _ => ?_
  by_cases hzero : port = 0
  · rw [if_pos hzero]
    exact Outcome.returns_err _
  rw [if_neg hzero]
  have hstorage : (secretWithCapacity reserve 16).Returns := by
    unfold secretWithCapacity
    by_cases hr : reserve 16
    · rw [if_pos hr]
      exact Outcome.returns_ok _
    · rw [if_neg hr]
      exact Outcome.returns_err _
  refine (hstorage.mapErr _).bind fun nonce _ => ?_
  rw [if_pos (by omega), Outcome.index_some, Outcome.ok_bind]
  exact ((SecretBytes.extend_returns nonce _).mapErr _).bind fun nonce _ => Outcome.returns_ok _

/-- **Native socket files.** Whatever the sizes of the reads, the file is accepted
exactly when it has the native format, and then gives its port on the loopback
address and its nonce. At most 23 bytes are read, longer files are refused, and
no content makes an index or a subtraction fail. -/
theorem readNativeSocketFile_exact (hreserve : ∀ k, reserve k = true) (file : SocketFile)
    (hopens : file.opens = true) (hregular : file.isFile = some true)
    (hreads : ∀ r ∈ file.reads, r ≠ .failed) :
    gatherSocketFile reserve file = .ok (file.content.take 23) ∧
    (∀ r, readNativeSocketFile reserve file = .ok r ↔
      ∃ digits nonce, ∃ hnonce : nonce.length = 16, file.content = digits ++ lf :: nonce ∧
        1 ≤ digits.length ∧ digits.length ≤ 5 ∧ (∀ d ∈ digits, isAsciiDigit d = true) ∧
        1 ≤ decimalValue 0 digits ∧ decimalValue 0 digits ≤ 65535 ∧
        r = ⟨.tcp ⟨.localhost, decimalValue 0 digits⟩,
          some ⟨16, nonce, Nat.le_of_eq hnonce⟩⟩) ∧
    (22 < file.content.length → ∃ e, readNativeSocketFile reserve file = .err e) ∧
    (readNativeSocketFile reserve file).Returns := by
  have hgather := gatherSocketFile_eq hreserve hopens hregular hreads
  have hread : readNativeSocketFile reserve file =
      parseNativeSocketFile reserve (file.content.take 23) := by
    rw [readNativeSocketFile, hgather, Outcome.ok_bind]
  -- a file whose first 23 bytes have the format has no more than 22
  have hwhole : ∀ {digits nonce}, NativeFormat (file.content.take 23) digits nonce →
      NativeFormat file.content digits nonce := by
    intro digits nonce h
    have hlen := h.length
    have hfive := h.short.2
    rw [List.length_take] at hlen
    rwa [List.take_of_length_le (by omega)] at h
  have hreturns : (readNativeSocketFile reserve file).Returns := by
    rw [hread]
    exact parseNativeSocketFile_returns _
  have haccepts : ∀ r, readNativeSocketFile reserve file = .ok r →
      ∃ digits nonce, ∃ h : NativeFormat file.content digits nonce,
        r = .native (decimalValue 0 digits) nonce h.nonce := by
    intro r hr
    rw [hread] at hr
    obtain ⟨digits, nonce, h⟩ := parseNativeSocketFile_sound hr
    rw [parseNativeSocketFile_complete hreserve h] at hr
    exact ⟨digits, nonce, hwhole h, (Outcome.ok.inj hr).symm⟩
  refine ⟨hgather, fun r => ⟨fun hr => ?_, ?_⟩, fun hlong => ?_, hreturns⟩
  · obtain ⟨digits, nonce, h, rfl⟩ := haccepts r hr
    exact ⟨digits, nonce, h.nonce, h.shape, h.short.1, h.short.2, h.ascii, h.port.1, h.port.2, rfl⟩
  · rintro ⟨digits, nonce, hnonce, hshape, hone, hfive, hascii, hpos, hle, rfl⟩
    have h : NativeFormat file.content digits nonce :=
      ⟨hshape, ⟨hone, hfive⟩, hascii, ⟨hpos, hle⟩, hnonce⟩
    have hlen := h.length
    rw [hread, List.take_of_length_le (by omega), parseNativeSocketFile_complete hreserve h]
    rfl
  · rcases hreturns with ⟨r, hr⟩ | herr
    · obtain ⟨digits, nonce, h, -⟩ := haccepts r hr
      have hlen := h.length
      have hfive := h.short.2
      omega
    · exact herr

/-- Port 80 and a nonce of line feeds, read one byte at a time. -/
theorem readNativeSocketFile_exact_short :
    readNativeSocketFile (fun _ => true)
        ⟨true, some true, [56, 48, 10] ++ List.replicate 16 10, List.replicate 30 (.upTo 1)⟩ =
      .ok ⟨.tcp ⟨.localhost, 80⟩, some ⟨16, List.replicate 16 10, Nat.le_refl 16⟩⟩ := by
  have hport : decimalValue 0 [56, 48] = 80 := rfl
  refine ((readNativeSocketFile_exact (fun _ => rfl) _ rfl rfl ?_).2.1 _).mpr
    ⟨[56, 48], List.replicate 16 10, rfl, rfl, by decide, by decide, ?_, ?_, ?_, ?_⟩
  · intro r hr
    rw [List.eq_of_mem_replicate hr]
    simp
  · intro d hd
    rcases List.mem_pair.mp hd with rfl | rfl
    · rfl
    · rfl
  · rw [hport]
    decide
  · rw [hport]
    decide
  · rw [hport]

end Parsing

end Assuan
