import Assuan.Client.Collect
import Assuan.Client.Lines

/-!
# What is retained

The loop of `collect_transaction` recomputes what it retains before each addition.
Here that is compared with totals over the lines of the response, for both
containers at once: the first limit that is broken on the way, and when none is.
-/

namespace Assuan

/-! ## §1  Totals -/

namespace ServerLine

/-- The decoded data of a line. -/
def dataBytes : ServerLine → Bytes
  | .data text => (decodeRef text).getD []
  | _ => []

def statusFields : ServerLine → Option (String × Bytes)
  | .status keyword args => some (keyword, args)
  | _ => none

def commentText : ServerLine → Option Bytes
  | .comment text => some text
  | _ => none

/-- What a line counts towards `max_bytes`. -/
def weight : ServerLine → ℕ
  | .data text => ((decodeRef text).getD []).length
  | .status keyword args => (asBytes keyword).length + args.length + 1
  | .comment text => text.length
  | _ => 0

end ServerLine

/-- The lines that are events. -/
def eventLines (lines : List ServerLine) : List ServerLine := lines.filter (· ≠ .empty)

def totalWeight (lines : List ServerLine) : ℕ := (lines.map ServerLine.weight).sum

/-- All there is to collect. -/
def responseOf (lines : List ServerLine) : Response where
  data := lines.flatMap ServerLine.dataBytes
  statuses := lines.filterMap ServerLine.statusFields
  comments := lines.filterMap ServerLine.commentText

/-- The first limit that is broken after `n` events with the weight `r`. -/
def firstLimit (limits : CollectLimits) : ℕ → ℕ → List ServerLine → Option LimitError
  | _, _, [] => none
  | n, r, head :: rest =>
      if head = .empty then firstLimit limits n r rest
      else if usizeMax < n + 1 then some .lengthOverflow
      else if limits.maxEvents < n + 1 then some .capacityExceeded
      else if limits.maxBytes < r + head.weight then some .capacityExceeded
      else firstLimit limits (n + 1) (r + head.weight) rest

/-- The totals are within the limits. -/
def Within (limits : CollectLimits) (lines : List ServerLine) : Prop :=
  (eventLines lines).length ≤ limits.maxEvents ∧ totalWeight lines ≤ limits.maxBytes

/-- The counter of events cannot be increased any more, and no limit has been
exceeded before. -/
def Overflows (limits : CollectLimits) (lines : List ServerLine) : Prop :=
  limits.maxEvents = usizeMax ∧ usizeMax < (eventLines lines).length ∧
    totalWeight ((eventLines lines).take usizeMax) ≤ limits.maxBytes

section Limits

variable {limits : CollectLimits} {lines : List ServerLine} {n r : ℕ}

theorem weight_empty : ServerLine.weight .empty = 0 := rfl

theorem eventLines_empty : eventLines (.empty :: lines) = eventLines lines := by
  simp [eventLines]

theorem eventLines_cons {line : ServerLine} (h : line ≠ .empty) :
    eventLines (line :: lines) = line :: eventLines lines := by
  simp [eventLines, h]

theorem totalWeight_cons (line : ServerLine) (lines : List ServerLine) :
    totalWeight (line :: lines) = line.weight + totalWeight lines := rfl

/-- No limit is broken on the way exactly when the totals are within the limits. -/
theorem firstLimit_eq_none (hn : n ≤ limits.maxEvents) (hr : r ≤ limits.maxBytes) :
    firstLimit limits n r lines = none ↔
      n + (eventLines lines).length ≤ limits.maxEvents ∧
        r + totalWeight lines ≤ limits.maxBytes := by
  have hfit := limits.events_fit
  induction lines generalizing n r with
  | nil =>
      simp only [firstLimit, eventLines, totalWeight, List.filter_nil, List.length_nil, List.map_nil,
        List.sum_nil, Nat.add_zero, true_iff]
      exact ⟨hn, hr⟩
  | cons line lines ih =>
      rw [firstLimit]
      by_cases hempty : line = .empty
      · rw [if_pos hempty, hempty, eventLines_empty, totalWeight_cons, weight_empty, Nat.zero_add]
        exact ih hn hr
      · rw [if_neg hempty, eventLines_cons hempty, totalWeight_cons, List.length_cons]
        -- each limit that is broken here stays broken in the totals
        split_ifs with hmax hevents hbytes
        · rw [false_iff]
          omega
        · rw [false_iff]
          omega
        · rw [false_iff]
          omega
        · apply (@ih (n + 1) (r + line.weight) (by omega) (by omega)).trans
          omega

/-- The counter itself overflows only where `max_events` cannot be exceeded. -/
theorem firstLimit_eq_lengthOverflow (hn : n ≤ limits.maxEvents) (hr : r ≤ limits.maxBytes) :
    firstLimit limits n r lines = some .lengthOverflow ↔
      limits.maxEvents = usizeMax ∧ usizeMax < n + (eventLines lines).length ∧
        r + totalWeight ((eventLines lines).take (usizeMax - n)) ≤ limits.maxBytes := by
  have hfit := limits.events_fit
  induction lines generalizing n r with
  | nil =>
      simp only [firstLimit, eventLines, List.filter_nil, List.length_nil, reduceCtorEq, false_iff]
      omega
  | cons line lines ih =>
      rw [firstLimit]
      by_cases hempty : line = .empty
      · rw [if_pos hempty, hempty, eventLines_empty]
        exact ih hn hr
      · rw [if_neg hempty, eventLines_cons hempty, List.length_cons]
        -- the counter can overflow only if `max_events` does not stop it before
        split_ifs with hmax hevents hbytes
        · have hnone : usizeMax - n = 0 := by omega
          simp only [hnone, List.take_zero, totalWeight, List.map_nil, List.sum_nil, true_iff]
          omega
        · simp only [Option.some.injEq, reduceCtorEq, false_iff]
          omega
        · obtain ⟨m, hm⟩ : ∃ m, usizeMax - n = m + 1 := ⟨usizeMax - n - 1, by omega⟩
          simp only [hm, List.take_succ_cons, totalWeight_cons, Option.some.injEq, reduceCtorEq,
            false_iff]
          omega
        · have hm : usizeMax - n = (usizeMax - (n + 1)) + 1 := by omega
          apply (@ih (n + 1) (r + line.weight) (by omega) (by omega)).trans
          rw [hm, List.take_succ_cons, totalWeight_cons]
          omega

theorem firstLimit_cases (limits : CollectLimits) (n r : ℕ) (lines : List ServerLine) :
    firstLimit limits n r lines = none ∨
      firstLimit limits n r lines = some .lengthOverflow ∨
      firstLimit limits n r lines = some .capacityExceeded := by
  induction lines generalizing n r with
  | nil => exact Or.inl rfl
  | cons line lines ih =>
      rw [firstLimit]
      split_ifs
      · exact ih n r
      · exact Or.inr (Or.inl rfl)
      · exact Or.inr (Or.inr rfl)
      · exact Or.inr (Or.inr rfl)
      · exact ih (n + 1) (r + line.weight)

theorem firstLimit_none (limits : CollectLimits) (lines : List ServerLine) :
    firstLimit limits 0 0 lines = none ↔ Within limits lines := by
  have h := @firstLimit_eq_none limits lines 0 0 (Nat.zero_le _) (Nat.zero_le _)
  rwa [Nat.zero_add, Nat.zero_add] at h

theorem firstLimit_overflow (limits : CollectLimits) (lines : List ServerLine) :
    firstLimit limits 0 0 lines = some .lengthOverflow ↔ Overflows limits lines := by
  have h := @firstLimit_eq_lengthOverflow limits lines 0 0 (Nat.zero_le _) (Nat.zero_le _)
  rwa [Nat.zero_add, Nat.zero_add, Nat.sub_zero] at h

end Limits

/-! ## §2  The containers -/

/-- The containers hold what was to be collected from the lines `seen`. -/
structure Stores (limits : CollectLimits) (secret : Bool) (c : Collecting)
    (seen : List ServerLine) : Prop where
  data : c.data = if secret then [] else (responseOf seen).data
  secretData : c.secretData.bytes = if secret then (responseOf seen).data else []
  capacity : secret = true → c.secretData.capacity = limits.maxBytes
  statuses : c.statuses = (responseOf seen).statuses
  comments : c.comments = (responseOf seen).comments
  events : c.events = (eventLines seen).length

section Containers

variable {limits : CollectLimits} {secret : Bool} {c : Collecting} {seen : List ServerLine}
  {parsed : ServerLine} {event : Event} {sensitivity : Sensitivity}

theorem totalWeight_append (a b : List ServerLine) :
    totalWeight (a ++ b) = totalWeight a + totalWeight b := by
  simp [totalWeight]

theorem eventLines_append (a b : List ServerLine) :
    eventLines (a ++ b) = eventLines a ++ eventLines b := by
  simp [eventLines]

theorem totalWeight_eq (lines : List ServerLine) :
    totalWeight lines = (responseOf lines).data.length +
      ((responseOf lines).statuses.map fun status =>
        (asBytes status.1).length + status.2.length + 1).sum +
      ((responseOf lines).comments.map List.length).sum := by
  induction lines with
  | nil => rfl
  | cons line lines ih =>
      rw [totalWeight_cons, ih]
      -- a line weighs what it adds to its one container
      simp only [responseOf, List.flatMap_cons, List.length_append]
      cases line with
      | data text =>
          simp only [ServerLine.weight, ServerLine.dataBytes, List.filterMap_cons,
            ServerLine.statusFields, ServerLine.commentText]
          omega
      | status keyword args =>
          simp only [ServerLine.weight, ServerLine.dataBytes, List.filterMap_cons,
            ServerLine.statusFields, ServerLine.commentText, List.map_cons, List.sum_cons,
            List.length_nil]
          omega
      | comment text =>
          simp only [ServerLine.weight, ServerLine.dataBytes, List.filterMap_cons,
            ServerLine.statusFields, ServerLine.commentText, List.map_cons, List.sum_cons,
            List.length_nil]
          omega
      | _ =>
          simp only [ServerLine.weight, ServerLine.dataBytes, List.filterMap_cons,
            ServerLine.statusFields, ServerLine.commentText, List.length_nil]
          omega

/-- What the code recomputes is the total so far. -/
theorem Stores.retained (h : Stores limits secret c seen) : c.retained = totalWeight seen := by
  rw [totalWeight_eq, Collecting.retained, h.data, h.secretData, h.statuses, h.comments]
  cases secret <;> simp

theorem ensureRoom_eq (c : Collecting) (add : ℕ) {limit : ℕ} (h : limit ≤ usizeMax) :
    c.ensureRoom add limit =
      if limit < c.retained + add then .err (.limit .capacityExceeded) else .ok () := by
  unfold Collecting.ensureRoom checkedAdd
  by_cases hfit : c.retained + add ≤ usizeMax
  · rw [if_pos hfit]
  · rw [if_neg hfit, if_pos (by omega)]

theorem stores_new (storage : SecretBytes) (hempty : storage.bytes = [])
    (hcapacity : secret = true → storage.capacity = limits.maxBytes) :
    Stores limits secret (.new storage) [] := by
  refine ⟨?_, ?_, hcapacity, rfl, rfl, rfl⟩
  · cases secret <;> rfl
  · show storage.bytes = _
    rw [hempty]
    cases secret <;> rfl

/-- A line that is not empty is counted first. -/
theorem Stores.countEvent (h : Stores limits secret c seen) :
    c.countEvent limits =
      if usizeMax < (eventLines seen).length + 1 then .err (.limit .lengthOverflow)
      else if limits.maxEvents < (eventLines seen).length + 1 then .err (.limit .capacityExceeded)
      else .ok { c with events := (eventLines seen).length + 1 } := by
  unfold Collecting.countEvent checkedAdd
  rw [h.events]
  by_cases hmax : (eventLines seen).length + 1 ≤ usizeMax
  · rw [if_pos hmax, if_neg (by omega), Outcome.okOr_some, Outcome.ok_bind]
  · rw [if_neg hmax, if_pos (by omega), Outcome.okOr_none, Outcome.err_bind]

theorem told_not_empty (h : told sensitivity parsed = some event) : parsed ≠ .empty := by
  rintro rfl
  exact absurd h (by simp [told])

theorem bytes_new (bytes : Bytes) (sensitivity : Sensitivity) :
    (PayloadRef.new bytes sensitivity).bytes = bytes := by
  cases sensitivity <;> rfl

theorem responseOf_snoc (seen : List ServerLine) (parsed : ServerLine) :
    responseOf (seen ++ [parsed]) =
      ⟨(responseOf seen).data ++ parsed.dataBytes,
        (responseOf seen).statuses ++ parsed.statusFields.toList,
        (responseOf seen).comments ++ parsed.commentText.toList⟩ := by
  unfold responseOf
  cases parsed <;> simp [ServerLine.statusFields, ServerLine.commentText]

theorem eventLines_snoc (h : parsed ≠ .empty) :
    (eventLines (seen ++ [parsed])).length = (eventLines seen).length + 1 := by
  rw [eventLines_append, eventLines_cons h, List.length_append]
  rfl

/-- A line that brings no data, with what it brings to the other containers. -/
theorem Stores.aside {statuses : List (String × Bytes)} {comments : List Bytes}
    (h : Stores limits secret c seen) (hempty : parsed ≠ .empty) (hdata : parsed.dataBytes = [])
    (hstatuses : statuses = c.statuses ++ parsed.statusFields.toList)
    (hcomments : comments = c.comments ++ parsed.commentText.toList) :
    Stores limits secret
      { c with events := (eventLines seen).length + 1, statuses := statuses, comments := comments }
      (seen ++ [parsed]) := by
  constructor
  · rw [responseOf_snoc, hdata]
    simpa using h.data
  · rw [responseOf_snoc, hdata]
    simpa using h.secretData
  · exact h.capacity
  · rw [responseOf_snoc, ← h.statuses]
    exact hstatuses
  · rw [responseOf_snoc, ← h.comments]
    exact hcomments
  · exact (eventLines_snoc hempty).symm

/-- The lines of which nothing is kept. -/
theorem Stores.skip (h : Stores limits secret c seen) (hempty : parsed ≠ .empty)
    (hdata : parsed.dataBytes = []) (hstatus : parsed.statusFields = none)
    (hcomment : parsed.commentText = none) :
    Stores limits secret { c with events := (eventLines seen).length + 1 } (seen ++ [parsed]) := by
  apply h.aside hempty hdata
  · rw [hstatus, Option.toList_none, List.append_nil]
  · rw [hcomment, Option.toList_none, List.append_nil]

/-- An empty line is not even counted. -/
theorem Stores.empty (h : Stores limits secret c seen) :
    Stores limits secret c (seen ++ [.empty]) := by
  have hsame : responseOf (seen ++ [.empty]) = responseOf seen := by
    rw [responseOf_snoc]
    simp [ServerLine.dataBytes, ServerLine.statusFields, ServerLine.commentText]
  have hevents : eventLines (seen ++ [.empty]) = eventLines seen := by
    rw [eventLines_append, eventLines_empty]
    exact List.append_nil _
  obtain ⟨hdata, hsecret, hcapacity, hstatuses, hcomments, hcount⟩ := h
  rw [← hsame] at hdata hsecret hstatuses hcomments
  rw [← hevents] at hcount
  exact ⟨hdata, hsecret, hcapacity, hstatuses, hcomments, hcount⟩

theorem extendFromSlice_eq (storage : SecretBytes) (bytes : Bytes)
    (hfits : storage.bytes.length + bytes.length ≤ storage.capacity)
    (hmax : storage.capacity ≤ usizeMax) :
    storage.extendFromSlice bytes =
      .ok ⟨storage.capacity, storage.bytes ++ bytes, SecretBytes.fits_append hfits⟩ := by
  unfold SecretBytes.extendFromSlice
  rw [checkedAdd_eq_some.mpr ⟨Nat.le_trans hfits hmax, rfl⟩]
  simp only [dif_pos hfits]

/-- Data goes to the container of the path. -/
theorem Stores.storeData (h : Stores limits secret c seen) {text bytes : Bytes}
    (hdecode : decodeRef text = some bytes)
    (hroom : totalWeight seen + bytes.length ≤ limits.maxBytes) :
    ∃ c', { c with events := (eventLines seen).length + 1 }.retain limits secret
        (.data (PayloadRef.new bytes sensitivity)) = .ok c' ∧
      Stores limits secret c' (seen ++ [.data text]) := by
  have hbytes : ServerLine.dataBytes (.data text) = bytes := by
    simp [ServerLine.dataBytes, hdecode]
  have hretained : ({ c with events := (eventLines seen).length + 1 } : Collecting).retained =
      totalWeight seen := h.retained
  have hevents : (eventLines (seen ++ [.data text])).length = (eventLines seen).length + 1 :=
    eventLines_snoc (by simp)
  rw [Collecting.retain, bytes_new, ensureRoom_eq _ _ limits.bytes_fit, hretained,
    if_neg (Nat.not_lt.mpr hroom), Outcome.ok_bind]
  -- the two containers; only the protected one has a capacity of its own
  cases secret with
  | true =>
      have hcapacity := h.capacity rfl
      have hheld : c.secretData.bytes = (responseOf seen).data := h.secretData
      have hfits : c.secretData.bytes.length + bytes.length ≤ c.secretData.capacity := by
        have hweight := totalWeight_eq seen
        rw [hheld, hcapacity]
        omega
      have hextend := extendFromSlice_eq c.secretData bytes hfits
        (by rw [hcapacity]; exact limits.bytes_fit)
      simp only [if_true, hextend, Outcome.ok_bind]
      refine ⟨_, rfl, ?_, ?_, fun _ => hcapacity, ?_, ?_, hevents.symm⟩
      · exact h.data
      · show c.secretData.bytes ++ bytes = (responseOf (seen ++ [.data text])).data
        rw [responseOf_snoc, hbytes, hheld]
      · rw [responseOf_snoc]
        simpa [ServerLine.statusFields] using h.statuses
      · rw [responseOf_snoc]
        simpa [ServerLine.commentText] using h.comments
  | false =>
      have hheld : c.data = (responseOf seen).data := h.data
      simp only [Bool.false_eq_true, if_false]
      refine ⟨_, rfl, ?_, h.secretData, by simp, ?_, ?_, hevents.symm⟩
      · show c.data ++ bytes = (responseOf (seen ++ [.data text])).data
        rw [responseOf_snoc, hbytes, hheld]
      · rw [responseOf_snoc]
        simpa [ServerLine.statusFields] using h.statuses
      · rw [responseOf_snoc]
        simpa [ServerLine.commentText] using h.comments

/-- Then it is stored, if there is room for it. -/
theorem Stores.retain (h : Stores limits secret c seen)
    (htold : told sensitivity parsed = some event) (hsmall : parsed.weight ≤ usizeMax)
    (hroom : totalWeight seen ≤ limits.maxBytes) :
    if limits.maxBytes < totalWeight seen + parsed.weight then
      { c with events := (eventLines seen).length + 1 }.retain limits secret event =
        .err (.limit .capacityExceeded)
    else ∃ c', { c with events := (eventLines seen).length + 1 }.retain limits secret event =
        .ok c' ∧ Stores limits secret c' (seen ++ [parsed]) := by
  have hretained : ({ c with events := (eventLines seen).length + 1 } : Collecting).retained =
      totalWeight seen := h.retained
  -- an event that is not kept has the weight zero and always fits
  have hfree : parsed.weight = 0 → ¬ limits.maxBytes < totalWeight seen + parsed.weight := by
    omega
  cases parsed with
  | empty => exact absurd htold (by simp [told])
  | ok text =>
      obtain rfl := Option.some.inj htold
      rw [if_neg (hfree rfl)]
      exact ⟨_, rfl, h.skip (by simp) rfl rfl rfl⟩
  | err code text =>
      obtain rfl := Option.some.inj htold
      rw [if_neg (hfree rfl)]
      exact ⟨_, rfl, h.skip (by simp) rfl rfl rfl⟩
  | inquire keyword args =>
      obtain rfl := Option.some.inj htold
      rw [if_neg (hfree rfl)]
      exact ⟨_, rfl, h.skip (by simp) rfl rfl rfl⟩
  | end_ =>
      obtain rfl := Option.some.inj htold
      rw [if_neg (hfree rfl)]
      exact ⟨_, rfl, h.skip (by simp) rfl rfl rfl⟩
  | data text =>
      obtain ⟨bytes, hdecode, rfl⟩ := Option.map_eq_some_iff.mp htold
      have hweight : ServerLine.weight (.data text) = bytes.length := by
        simp [ServerLine.weight, hdecode]
      rw [hweight]
      split
      · next hfull =>
          rw [Collecting.retain, bytes_new, ensureRoom_eq _ _ limits.bytes_fit, hretained,
            if_pos hfull, Outcome.err_bind]
      · next hfits => exact h.storeData hdecode (Nat.not_lt.mp hfits)
  | status keyword args =>
      obtain rfl := Option.some.inj htold
      -- neither of the two additions for a status can overflow
      have hfields : (asBytes keyword).length + args.length ≤ usizeMax := by
        have hle : (asBytes keyword).length + args.length + 1 ≤ usizeMax := hsmall
        omega
      have hsum := checkedAdd_eq_some.mpr ⟨hfields, rfl⟩
      have hsum' := checkedAdd_eq_some.mpr ⟨hsmall, rfl⟩
      have hweight : ServerLine.weight (.status keyword args) =
          (asBytes keyword).length + args.length + 1 := rfl
      rw [Collecting.retain, bytes_new, hsum, Outcome.okOr_some, Outcome.ok_bind, hsum',
        Outcome.okOr_some, Outcome.ok_bind, ensureRoom_eq _ _ limits.bytes_fit, hretained, hweight]
      split
      · rfl
      · exact ⟨_, rfl, h.aside (by simp) rfl rfl (List.append_nil _).symm⟩
  | comment text =>
      obtain rfl := Option.some.inj htold
      have hweight : ServerLine.weight (.comment text) = text.length := rfl
      rw [Collecting.retain, bytes_new, ensureRoom_eq _ _ limits.bytes_fit, hretained, hweight]
      split
      · rfl
      · exact ⟨_, rfl, h.aside (by simp) rfl (List.append_nil _).symm rfl⟩

/-- The loop stops at the first limit that is broken. -/
theorem Stores.take (h : Stores limits secret c seen)
    (htold : told sensitivity parsed = some event) (hsmall : parsed.weight ≤ usizeMax)
    (hroom : totalWeight seen ≤ limits.maxBytes) :
    (∃ e, c.take limits secret event = .err (.limit e) ∧ ∀ rest,
      firstLimit limits (eventLines seen).length (totalWeight seen) (parsed :: rest) = some e) ∨
    (∃ c', c.take limits secret event = .ok c' ∧ Stores limits secret c' (seen ++ [parsed]) ∧
      totalWeight (seen ++ [parsed]) ≤ limits.maxBytes ∧ ∀ rest,
      firstLimit limits (eventLines seen).length (totalWeight seen) (parsed :: rest) =
        firstLimit limits (eventLines (seen ++ [parsed])).length (totalWeight (seen ++ [parsed]))
          rest) := by
  have hempty := told_not_empty htold
  have hretain := h.retain htold hsmall hroom
  have htotal : totalWeight (seen ++ [parsed]) = totalWeight seen + parsed.weight := by
    rw [totalWeight_append]
    rfl
  simp only [firstLimit, if_neg hempty]
  rw [Collecting.take, h.countEvent]
  by_cases hmax : usizeMax < (eventLines seen).length + 1
  · left
    rw [if_pos hmax]
    exact ⟨.lengthOverflow, rfl, fun _ => if_pos hmax⟩
  by_cases hevents : limits.maxEvents < (eventLines seen).length + 1
  · left
    rw [if_neg hmax, if_pos hevents]
    refine ⟨.capacityExceeded, rfl, fun rest => ?_⟩
    rw [if_neg hmax, if_pos hevents]
  rw [if_neg hmax, if_neg hevents, Outcome.ok_bind]
  by_cases hbytes : limits.maxBytes < totalWeight seen + parsed.weight
  · left
    rw [if_pos hbytes] at hretain
    refine ⟨.capacityExceeded, hretain, fun rest => ?_⟩
    rw [if_neg hmax, if_neg hevents, if_pos hbytes]
  · right
    rw [if_neg hbytes] at hretain
    obtain ⟨c', hrun, hstores⟩ := hretain
    refine ⟨c', hrun, hstores, ?_, fun rest => ?_⟩
    · rw [htotal]
      exact Nat.not_lt.mp hbytes
    · rw [if_neg hmax, if_neg hevents, if_neg hbytes, eventLines_snoc hempty, htotal]

end Containers

/-! ## §3  Every moment -/

section Moments

variable {limits : CollectLimits} {secret : Bool} {c c' : Collecting} {event : Event}

theorem ensureRoom_inv {add limit : ℕ} (h : c.ensureRoom add limit = .ok ()) :
    c.retained + add ≤ limit := by
  unfold Collecting.ensureRoom at h
  split at h
  · exact absurd h (by simp)
  · next n hsum =>
      obtain ⟨-, rfl⟩ := checkedAdd_eq_some.mp hsum
      by_contra hfull
      rw [if_pos (Nat.lt_of_not_le hfull)] at h
      exact absurd h (by simp)

theorem extendFromSlice_bytes {storage storage' : SecretBytes} {bytes : Bytes}
    (h : storage.extendFromSlice bytes = .ok storage') :
    storage'.bytes = storage.bytes ++ bytes := by
  unfold SecretBytes.extendFromSlice at h
  split at h
  · exact absurd h (by simp)
  · split at h
    · rw [← Outcome.ok.inj h]
    · exact absurd h (by simp)

theorem countEvent_retained (h : c.countEvent limits = .ok c') :
    c'.retained = c.retained := by
  obtain ⟨events, -, h⟩ := Outcome.bind_eq_ok.mp h
  split at h
  · exact absurd h (by simp)
  · rw [← Outcome.ok.inj h]
    rfl

/-- Room is made sure of before anything is added. -/
theorem retain_le (h : c.retain limits secret event = .ok c')
    (hroom : c.retained ≤ limits.maxBytes) : c'.retained ≤ limits.maxBytes := by
  cases event with
  | inquire inquiry =>
      obtain rfl := Outcome.ok.inj h
      exact hroom
  | end_ =>
      obtain rfl := Outcome.ok.inj h
      exact hroom
  | finished code text =>
      obtain rfl := Outcome.ok.inj h
      exact hroom
  | data payload =>
      obtain ⟨_, hensure, h⟩ := Outcome.bind_eq_ok.mp h
      have hfits := ensureRoom_inv hensure
      split at h
      · obtain ⟨storage, hextend, h⟩ := Outcome.bind_eq_ok.mp h
        have hbytes := extendFromSlice_bytes hextend
        obtain rfl := Outcome.ok.inj h
        simp only [Collecting.retained, hbytes, List.length_append] at hfits ⊢
        omega
      · obtain rfl := Outcome.ok.inj h
        simp only [Collecting.retained, List.length_append] at hfits ⊢
        omega
  | status keyword args =>
      obtain ⟨n, hn, h⟩ := Outcome.bind_eq_ok.mp h
      obtain ⟨m, hm, h⟩ := Outcome.bind_eq_ok.mp h
      obtain ⟨_, hensure, hstored⟩ := Outcome.bind_eq_ok.mp h
      -- the room that was asked for is the weight of the status
      obtain ⟨-, rfl⟩ := checkedAdd_eq_some.mp (Outcome.okOr_eq_ok.mp hn)
      obtain ⟨-, rfl⟩ := checkedAdd_eq_some.mp (Outcome.okOr_eq_ok.mp hm)
      have hfits := ensureRoom_inv hensure
      obtain rfl := Outcome.ok.inj hstored
      simp only [Collecting.retained, List.map_append, List.sum_append, List.map_cons, List.map_nil,
        List.sum_cons, List.sum_nil] at hfits ⊢
      omega
  | comment payload =>
      obtain ⟨_, hensure, h⟩ := Outcome.bind_eq_ok.mp h
      have hfits := ensureRoom_inv hensure
      obtain rfl := Outcome.ok.inj h
      simp only [Collecting.retained, List.map_append, List.sum_append, List.map_cons, List.map_nil,
        List.sum_cons, List.sum_nil] at hfits ⊢
      omega

/-- The containers after one more event. -/
def Collecting.Takes (limits : CollectLimits) (secret : Bool) (c c' : Collecting) : Prop :=
  ∃ event, c.take limits secret event = .ok c'

/-- Whatever events come. -/
theorem retained_le {storage : SecretBytes} (hempty : storage.bytes = [])
    (h : Relation.ReflTransGen (Collecting.Takes limits secret) (.new storage) c) :
    c.retained ≤ limits.maxBytes := by
  induction h with
  | refl =>
      show 0 + storage.bytes.length + 0 + 0 ≤ _
      rw [hempty]
      exact Nat.zero_le _
  | tail _ hstep ih =>
      obtain ⟨event, htake⟩ := hstep
      obtain ⟨c₁, hcount, hretain⟩ := Outcome.bind_eq_ok.mp htake
      apply retain_le hretain
      rw [countEvent_retained hcount]
      exact ih

end Moments

end Assuan
