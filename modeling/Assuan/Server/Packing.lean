import Assuan.Foundation.Cuts
import Assuan.Server.Context

/-!
# The lines of a HELP entry

`entry` packs its characters into one buffer that it uses again for every line.
Without the buffer it is a loop over texts that are known beforehand, and no index
is out of range.
-/

namespace Assuan

namespace Link

/-- The texts of the comment lines of an entry. -/
def entryTexts (name description : String) : List String :=
  (packed Char.utf8Size (maxLineBytes - 3) (name ++ " " ++ description).toList []).map String.ofList

/-! ## §1  Characters and their encodings -/

def utf8 (ch : Char) : Bytes := asBytes (String.singleton ch)

theorem utf8_eq (ch : Char) : utf8 ch = String.utf8EncodeChar ch := by
  have hsingle : String.singleton ch = String.ofList [ch] := rfl
  rw [utf8, hsingle, asBytes_ofList, List.flatMap_singleton]

theorem length_utf8 (ch : Char) : (utf8 ch).length = ch.utf8Size := by
  rw [utf8_eq, String.length_utf8EncodeChar]

theorem asBytes_snoc (chars : List Char) (ch : Char) :
    asBytes (String.ofList (chars ++ [ch])) = asBytes (String.ofList chars) ++ utf8 ch := by
  rw [utf8_eq, asBytes_ofList, asBytes_ofList, List.flatMap_append, List.flatMap_singleton]

theorem length_asBytes_ofList (chars : List Char) :
    (asBytes (String.ofList chars)).length = totalSize Char.utf8Size chars := by
  rw [asBytes_ofList]
  induction chars with
  | nil => rfl
  | cons ch chars ih =>
      rw [List.flatMap_cons, List.length_append, String.length_utf8EncodeChar, ih, totalSize]

theorem encodeUtf8_append (s t : String) : encodeUtf8 s ++ encodeUtf8 t = encodeUtf8 (s ++ t) := by
  rw [encodeUtf8, encodeUtf8, encodeUtf8, String.toList_append, List.map_append]

/-! ## §2  The buffer -/

/-- The buffer holds the characters collected for the next line. -/
structure Collected (buffer : LineArray) (len : ℕ) (chars : List Char) : Prop where
  fits : len ≤ maxLineBytes - 3
  text : buffer.bytes.take len = asBytes (String.ofList chars)

section Collecting

variable {buffer : LineArray} {len : ℕ} {chars : List Char}

theorem collected_nil (buffer : LineArray) : Collected buffer 0 [] :=
  ⟨Nat.zero_le _, rfl⟩

theorem Collected.length (h : Collected buffer len chars) :
    len = totalSize Char.utf8Size chars := by
  have hlen := congrArg List.length h.text
  have hfits := h.fits
  rw [Buffer.length_take_le (by omega), length_asBytes_ofList] at hlen
  exact hlen

theorem Collected.eq_zero_iff (h : Collected buffer len chars) : len = 0 ↔ chars = [] := by
  rw [h.length]
  constructor
  · intro hzero
    cases chars with
    | nil => rfl
    | cons ch chars =>
        have hpos := ch.utf8Size_pos
        rw [totalSize] at hzero
        omega
  · rintro rfl
    rfl

theorem Collected.flush (h : Collected buffer len chars) :
    flush buffer len = comment (asBytes (String.ofList chars)) := by
  have hfits := h.fits
  have hslice : buffer.slice 0 len = some (asBytes (String.ofList chars)) := by
    rw [Buffer.slice, if_pos (by omega), h.text, List.drop_zero]
  rw [Link.flush, hslice, Outcome.index_some, Action.lift_ok_bind]

/-- There is room for one more character below the limit. -/
theorem Collected.push (h : Collected buffer len chars) (ch : Char)
    (hroom : len + (utf8 ch).length ≤ maxLineBytes - 3) :
    ∃ buffer', buffer.copyAt len (utf8 ch) = some buffer' ∧
      Collected buffer' (len + (utf8 ch).length) (chars ++ [ch]) := by
  obtain ⟨buffer', hcopy, htext, -⟩ := buffer.copyAt_spec len (utf8 ch) (by omega)
  refine ⟨buffer', hcopy, hroom, ?_⟩
  rw [htext, h.text, asBytes_snoc]

/-- The loop, by induction on the characters that are left. -/
theorem packLoop_eq (rest : List Char) (h : Collected buffer len chars) :
    packLoop (rest.map utf8) buffer len = Action.forEach comment
      ((packed Char.utf8Size (maxLineBytes - 3) rest chars).map fun p => asBytes (String.ofList p)) := by
  induction rest generalizing buffer len chars with
  | nil =>
      rw [List.map_nil, packLoop, packed]
      by_cases hnil : chars = []
      · rw [if_neg (by simpa using h.eq_zero_iff.mpr hnil), if_pos hnil]
        rfl
      · rw [if_pos (by simpa [h.eq_zero_iff] using hnil), if_neg hnil, h.flush, List.map_singleton,
          Action.forEach_singleton]
  | cons ch rest ih =>
      have hsmall : (utf8 ch).length ≤ 4 := by
        rw [length_utf8]
        exact ch.utf8Size_le_four
      have hlimit : 4 ≤ maxLineBytes - 3 := by decide
      rw [List.map_cons, packLoop, packed, ← h.length, ← length_utf8, makeRoom]
      by_cases hfull : len + (utf8 ch).length > maxLineBytes - 3
      · -- the line is sent, and the character begins the next one
        obtain ⟨buffer', hcopy, hnext⟩ := (collected_nil buffer).push ch (by omega)
        rw [if_pos hfull, if_pos hfull, bind_assoc, h.flush, List.map_cons, Action.forEach]
        congr 1
        funext u
        rw [pure_bind, hcopy, Outcome.index_some, Action.lift_ok_bind, ih hnext]
        rfl
      · obtain ⟨buffer', hcopy, hnext⟩ := h.push ch (by omega)
        rw [if_neg hfull, if_neg hfull, pure_bind, hcopy, Outcome.index_some, Action.lift_ok_bind,
          ih hnext]

end Collecting

/-- After its check, an entry is one comment for each text. -/
theorem entry_eq (name description : String) : entry name description = (do
    let _ ← Action.lift ((Command.new name (asBytes description)).mapErr .protocol)
    Action.forEach comment ((entryTexts name description).map asBytes)) := by
  have hloop := packLoop_eq (name ++ " " ++ description).toList
    (collected_nil (Buffer.zero maxLineBytes))
  rw [entry, encodeUtf8_append, encodeUtf8_append, entryTexts, List.map_map]
  exact congrArg (fun loop => _ >>= fun _ => loop) hloop

/-! ## §3  The texts -/

section Texts

variable {name description : String}

theorem entryTexts_join : String.join (entryTexts name description) = name ++ " " ++ description := by
  apply String.toList_inj.mp
  rw [String.toList_join, entryTexts, List.flatMap_map]
  simp only [String.toList_ofList]
  rw [List.flatMap_id', packed_flatten, List.nil_append]

theorem entryTexts_fits {text : String} (h : text ∈ entryTexts name description) :
    text ≠ "" ∧ (asBytes text).length ≤ maxLineBytes - 3 := by
  obtain ⟨chars, hchars, rfl⟩ := List.mem_map.mp h
  have hsmall : ∀ ch ∈ (name ++ " " ++ description).toList, ch.utf8Size ≤ maxLineBytes - 3 :=
    fun ch _ => Nat.le_trans ch.utf8Size_le_four (by decide)
  obtain ⟨hne, hfits⟩ := packed_fits hsmall (Nat.zero_le _) chars hchars
  constructor
  · intro hempty
    apply hne
    rw [← String.toList_ofList (l := chars), hempty]
    rfl
  · rw [length_asBytes_ofList]
    exact hfits

theorem asBytes_join (texts : List String) :
    asBytes (String.join texts) = (texts.map asBytes).flatten := by
  induction texts with
  | nil => rw [String.join_nil]; rfl
  | cons text texts ih =>
      rw [String.join_cons, asBytes_append, ih, List.map_cons, List.flatten_cons]

/-- No byte of a text is new. -/
theorem entryTexts_mem {text : String} (h : text ∈ entryTexts name description) {b : UInt8}
    (hb : b ∈ asBytes text) : b ∈ asBytes (name ++ " " ++ description) := by
  rw [← entryTexts_join, asBytes_join]
  exact List.mem_flatten.mpr ⟨asBytes text, List.mem_map_of_mem h, hb⟩

end Texts

end Link

end Assuan
