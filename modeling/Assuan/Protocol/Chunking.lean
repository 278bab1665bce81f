import Assuan.Foundation.Cuts
import Assuan.Protocol.Streaming

/-!
# Cutting payloads into data lines

`Inquiry::send` and `CommandContext::send_data` cut a payload with the loop of
`streamData`. The lines are read back here with the parser and the in-place
decoder, and their number is compared with every other way of cutting the payload.
-/

namespace Assuan

/-! ## §1 What fits on a line -/

/-- The bytes one payload byte takes on the wire. -/
def escapedCost (b : UInt8) : ℕ :=
  if b = percent ∨ b = cr ∨ b = lf ∨ b = 0 then 3 else 1

/-- The tag `D `, the escaped payload and the LF fit a line. -/
def FitsLine (payload : Bytes) : Prop :=
  2 + (payload.map escapedCost).sum + 1 ≤ maxLineBytes

instance (payload : Bytes) : Decidable (FitsLine payload) :=
  inferInstanceAs (Decidable (_ ≤ _))

theorem escapedCost_eq (b : UInt8) : escapedCost b = (escapeByte b).length := by
  rw [escapeByte_length]
  unfold escapedCost escapeOf
  split
  · next h =>
      rcases h with rfl | rfl | rfl | rfl
      · rfl
      · rfl
      · rfl
      · rfl
  · next h =>
      simp only [not_or] at h
      simp [h.1, h.2.1, h.2.2.1, h.2.2.2]

theorem escapeBytes_length (payload : Bytes) :
    (escapeBytes payload).length = (payload.map escapedCost).sum := by
  rw [escapeBytes, List.length_flatMap]
  congr 1
  exact List.map_congr_left fun b _ => (escapedCost_eq b).symm

theorem fitsLine_iff (payload : Bytes) :
    FitsLine payload ↔ (dataLine payload).length ≤ maxLineBytes := by
  have htag : (asBytes "D ").length = 2 := rfl
  rw [FitsLine, dataLine, List.length_append, List.length_append, htag, escapeBytes_length,
    List.length_singleton]

/-- The loop of `encode_data_chunk` stops only before a byte that does not fit. -/
theorem chunkFit_longest {written : ℕ} {piece : Bytes} (tail : Bytes)
    (h : written + (escapeBytes piece).length < maxLineBytes) :
    piece.length ≤ chunkFit written (piece ++ tail) := by
  induction piece generalizing written with
  | nil => exact Nat.zero_le _
  | cons b rest ih =>
      rw [escapeBytes, List.flatMap_cons, List.length_append, ← Nat.add_assoc] at h
      rw [List.cons_append, chunkFit, if_neg (by omega), List.length_cons]
      exact Nat.succ_le_succ (ih h)

/-- One line of the encoder is the longest piece that fits. -/
theorem chunkFit_greedy : Greedy FitsLine (chunkFit 2) where
  take rest := by
    have hbound := chunkFit_bound rest (show 2 < maxLineBytes by decide)
    rw [FitsLine, ← escapeBytes_length]
    omega
  longest piece tail h := by
    rw [FitsLine, ← escapeBytes_length] at h
    exact chunkFit_longest tail (by omega)
  pos rest h := chunkFit_pos h

theorem fitsLine_of_append (front payload : Bytes) (h : FitsLine (front ++ payload)) :
    FitsLine payload := by
  unfold FitsLine at *
  rw [List.map_append, List.sum_append] at h
  omega

/-! ## §2 The pieces -/

theorem piecesFrom_eq_greedyCuts (fuel : ℕ) (rest : Bytes) :
    piecesFrom fuel rest = greedyCuts (chunkFit 2) fuel rest := by
  induction fuel generalizing rest with
  | zero => rfl
  | succ fuel ih => rw [piecesFrom, greedyCuts_succ, ih]

theorem pieces_cutting (data : Bytes) : Cutting FitsLine data (pieces data) := by
  rw [pieces, piecesFrom_eq_greedyCuts]
  exact chunkFit_greedy.cutting (Nat.lt_succ_self _)

/-- What `decode_data_in_place` leaves in the prefix it returns. -/
def decodedPrefix (payload : Bytes) : Option Bytes :=
  match decodeDataInPlace payload with
  | (.ok n, bytes) => some (bytes.take n)
  | _ => none

theorem decodedPrefix_eq (payload : Bytes) : decodedPrefix payload = decodeRef payload := by
  rw [decodedPrefix, decodeDataInPlace_eq]
  cases h : decodeRef payload with
  | none => rfl
  | some decoded => simp

theorem not_mem_of_clean {line : Bytes} (h : isCleanLine line = true) :
    lf ∉ line ∧ cr ∉ line ∧ 0 ∉ line := by
  have hno := isCleanLine_iff.mp h
  exact ⟨fun hmem => (hno _ hmem).2.2 rfl, fun hmem => (hno _ hmem).2.1 rfl,
    fun hmem => (hno _ hmem).1 rfl⟩

theorem parseServerLine_dataBody (piece : Bytes) :
    parseServerLine (asBytes "D " ++ escapeBytes piece) = .ok (.data (escapeBytes piece)) := by
  rw [(parseServerLine_tagged _).2.2.2.1, validateLine_eq_ok.mpr (dataLine_body_clean piece),
    Outcome.ok_bind]

/-! ## §3 The loop -/

/-- **Data chunking.** Whatever the lines are written to, the loop writes finitely
many of them: each is a well-formed data line that decodes by itself, together they
decode to the payload, and no other cutting of the payload has fewer. -/
theorem chunking_exact (p : Bytes) : ∃ payloads pieces : List Bytes,
    (∀ (σ ε : Type) (write : Bytes → Action σ ε Unit) (wrap : ProtocolError → ε),
      streamData write wrap (p.length + 1) p =
        Action.forEach write (payloads.map (asBytes "D " ++ · ++ [lf]))) ∧
    (∀ payload ∈ payloads,
      (asBytes "D " ++ payload ++ [lf]).length ≤ 1000 ∧
      (lf ∉ asBytes "D " ++ payload ∧ cr ∉ asBytes "D " ++ payload ∧
        0 ∉ asBytes "D " ++ payload) ∧
      parseServerLine (asBytes "D " ++ payload) = .ok (.data payload)) ∧
    payloads.map decodedPrefix = pieces.map some ∧
    payloads = pieces.map escapeBytes ∧
    pieces.flatten = p ∧
    (p = [] → payloads = [[]]) ∧
    IsLeast {n | ∃ cuts, Cutting FitsLine p cuts ∧ n = cuts.length} payloads.length := by
  have hcut := pieces_cutting p
  refine ⟨(pieces p).map escapeBytes, pieces p, ?_, ?_, ?_, rfl, hcut.flatten, ?_, ?_⟩
  · intro σ ε write wrap
    rw [streamData_eq, List.map_map]
    rfl
  · intro payload hpayload
    obtain ⟨piece, hpiece, rfl⟩ := List.mem_map.mp hpayload
    exact ⟨(fitsLine_iff piece).mp (hcut.fits piece hpiece),
      not_mem_of_clean (dataLine_body_clean piece), parseServerLine_dataBody piece⟩
  · rw [List.map_map]
    exact List.map_congr_left fun piece _ => (decodedPrefix_eq _).trans (decodeRef_escapeBytes _)
  · rintro rfl
    rfl
  · rw [List.length_map, pieces, piecesFrom_eq_greedyCuts]
    exact chunkFit_greedy.isLeast fitsLine_of_append (Nat.lt_succ_self _)

end Assuan
