import Flowchart.Proofs.StreamReports
import Flowchart.Proofs.StreamedRuns

/-!
# Where chunks end

A text is fed to a stream in chunks of so many bytes.  What is left of it is cut
at the size of a chunk, or at its end; a cut inside of a character moves on byte
by byte until the character is over.  If a chunk is to hold a byte at least, this
comes to an end: every chunk takes a character or more, nothing is lost between
the chunks, and no cut moves on by more than three bytes.  With chunks of no
bytes it would go on for ever.
-/

namespace Flowchart

namespace Text

/-! ### Boundaries of characters -/

/-- The bytes of the text in UTF-8. -/
def encode (text : List Char) : List UInt8 :=
  text.flatMap String.utf8EncodeChar

/-- A cut at the place goes through no character: the place is an end of the
bytes, or the byte behind it is the first one of a character. -/
def IsBoundary (bytes : List UInt8) (place : ℕ) : Prop :=
  place = 0 ∨ place = bytes.length ∨
    ∃ byte, bytes[place]? = some byte ∧ byte.IsUTF8FirstByte

theorem encode_append (first second : List Char) :
    encode (first ++ second) = encode first ++ encode second :=
  List.flatMap_append

theorem encode_eq_nil_iff {text : List Char} : encode text = [] ↔ text = [] := by
  cases text with
  | nil => simp [encode]
  | cons c text => simp [encode, String.utf8EncodeChar_ne_nil]

theorem encode_eq_toList (text : List Char) :
    encode text = (String.ofList text).toByteArray.data.toList := by
  rw [String.toByteArray_ofList, List.utf8Encode, List.toList_data_toByteArray]
  rfl

theorem length_encode (text : List Char) :
    (encode text).length = byteLength text := by
  induction text with
  | nil => rfl
  | cons c text ih =>
      rw [encode, List.flatMap_cons, List.length_append, ← encode, ih,
        String.length_utf8EncodeChar, byteLength_cons]

theorem byteIdx_rawEndPos_ofList (text : List Char) :
    (String.ofList text).rawEndPos.byteIdx = byteLength text := by
  rw [← length_encode, encode_eq_toList]
  rfl

open String.Pos in
theorem isBoundary_encode_iff_isValid {text : List Char} {place : ℕ} :
    IsBoundary (encode text) place ↔
      Raw.IsValid (String.ofList text) ⟨place⟩ := by
  have hend : place = (encode text).length ↔
      (⟨place⟩ : Raw) = (String.ofList text).rawEndPos := by
    rw [Raw.ext_iff, length_encode, byteIdx_rawEndPos_ofList]
  have hfirst : (∃ byte, (encode text)[place]? = some byte ∧
      byte.IsUTF8FirstByte) ↔
        ∃ h : (⟨place⟩ : Raw) < (String.ofList text).rawEndPos,
          ((String.ofList text).getUTF8Byte ⟨place⟩ h).IsUTF8FirstByte := by
    rw [encode_eq_toList]
    constructor
    · rintro ⟨byte, hbyte, hfirst⟩
      obtain ⟨hlt, rfl⟩ := List.getElem?_eq_some_iff.mp hbyte
      exact ⟨hlt, hfirst⟩
    · rintro ⟨hlt, hfirst⟩
      exact ⟨_, List.getElem?_eq_getElem hlt, hfirst⟩
  rw [IsBoundary, hend, hfirst, ← Raw.isValid_iff_isUTF8FirstByte]
  exact or_iff_right_of_imp fun h => h ▸ Raw.isValid_zero

/-- The boundaries are the places between the characters. -/
theorem isBoundary_encode_iff {text : List Char} {place : ℕ} :
    IsBoundary (encode text) place ↔
      ∃ before after, text = before ++ after ∧ place = byteLength before := by
  rw [isBoundary_encode_iff_isValid, String.Pos.Raw.isValid_iff_exists_append]
  constructor
  · rintro ⟨before, after, htext, hplace⟩
    refine ⟨before.toList, after.toList, ?_, ?_⟩
    · rw [← String.toList_append, ← htext, String.toList_ofList]
    · rw [← byteIdx_rawEndPos_ofList, String.ofList_toList, ← hplace]
  · rintro ⟨before, after, rfl, rfl⟩
    refine ⟨String.ofList before, String.ofList after, String.ofList_append, ?_⟩
    rw [← byteIdx_rawEndPos_ofList]

theorem byteLength_le_of_isPrefix {first second : List Char}
    (h : first <+: second) : byteLength first ≤ byteLength second := by
  obtain ⟨rest, rfl⟩ := h
  rw [byteLength_append]
  exact Nat.le_add_right _ _

end Text

namespace Stream

open Text

/-! ### Cutting off chunks -/

/-- Moving on from the first place, byte by byte and up to a boundary, ends at
the last place. -/
inductive Settles (bytes : List UInt8) : ℕ → ℕ → Prop
  | here {place : ℕ} (h : IsBoundary bytes place) : Settles bytes place place
  | further {place last : ℕ} (h : ¬ IsBoundary bytes place)
      (hrest : Settles bytes (place + 1) last) : Settles bytes place last

/-- Cutting off chunks of the size, until no bytes are left, ends after the
given chunks. -/
inductive Feeds (size : ℕ) : List UInt8 → List (List UInt8) → Prop
  | nil : Feeds size [] []
  | cut {bytes : List UInt8} {place : ℕ} {others : List (List UInt8)}
      (hne : bytes ≠ []) (hplace : Settles bytes (min size bytes.length) place)
      (hrest : Feeds size (bytes.drop place) others) :
      Feeds size bytes (bytes.take place :: others)

theorem settles_iff {bytes : List UInt8} {place last : ℕ} :
    Settles bytes place last ↔
      place ≤ last ∧ IsBoundary bytes last ∧
        ∀ between, place ≤ between → between < last →
          ¬ IsBoundary bytes between := by
  constructor
  · intro h
    induction h with
    | here h => exact ⟨Nat.le_refl _, h, fun between hge hlt => by omega⟩
    | @further place last h _ ih =>
        obtain ⟨hle, hlast, hnone⟩ := ih
        refine ⟨Nat.le_of_succ_le hle, hlast, fun between hge hlt => ?_⟩
        rcases Nat.eq_or_lt_of_le hge with rfl | hgt
        · exact h
        · exact hnone between hgt hlt
  · rintro ⟨hle, hlast, hnone⟩
    -- Backwards from the last place, since the bound is the distance to it.
    induction hle using Nat.decreasingInduction with
    | self => exact .here hlast
    | of_succ place hlt ih =>
        exact .further (hnone place (Nat.le_refl _) hlt)
          (ih fun between hge => hnone between (Nat.le_of_succ_le hge))

theorem Settles.last_eq {bytes : List UInt8} {place last other : ℕ}
    (h : Settles bytes place last) (hother : Settles bytes place other) :
    last = other := by
  obtain ⟨hle, hlast, hnone⟩ := settles_iff.mp h
  obtain ⟨hle', hlast', hnone'⟩ := settles_iff.mp hother
  rcases Nat.lt_trichotomy last other with hlt | heq | hgt
  · exact absurd hlast (hnone' last hle hlt)
  · exact heq
  · exact absurd hlast' (hnone other hle' hgt)

/-- Cutting off chunks has one outcome. -/
theorem Feeds.chunks_eq {size : ℕ} {bytes : List UInt8}
    {chunks others : List (List UInt8)} (h : Feeds size bytes chunks)
    (hothers : Feeds size bytes others) : chunks = others := by
  induction h generalizing others with
  | nil =>
      cases hothers with
      | nil => rfl
      | cut hne => exact absurd rfl hne
  | cut hne hplace _ ih =>
      cases hothers with
      | nil => exact absurd rfl hne
      | cut _ hplace' hrest' =>
          cases hplace.last_eq hplace'
          rw [ih hrest']

/-- Chunks of no bytes are cut off for ever. -/
theorem Feeds.eq_nil_of_zero {bytes : List UInt8} {chunks : List (List UInt8)}
    (h : Feeds 0 bytes chunks) : bytes = [] := by
  induction h with
  | nil => rfl
  | @cut bytes place _ _ hplace _ ih =>
      rw [Nat.zero_min] at hplace
      have hzero := hplace.last_eq (.here (.inl rfl))
      rwa [hzero, List.drop_zero] at ih

/-! ### The characters of a chunk -/

theorem byteLength_lt_of_takeBytes {size : ℕ} {text before after : List Char}
    (h : (takeBytes size text).1 = before ++ after) (hafter : after ≠ []) :
    byteLength before < size := by
  induction text generalizing size before with
  | nil => exact absurd (List.append_eq_nil_iff.mp h.symm).2 hafter
  | cons c text ih =>
      rw [takeBytes] at h
      split at h
      next => exact absurd (List.append_eq_nil_iff.mp h.symm).2 hafter
      next hsize =>
        cases before with
        | nil => exact Nat.pos_of_ne_zero hsize
        | cons d before =>
            obtain ⟨rfl, hrest⟩ := List.cons.inj h
            have hlt := ih hrest
            rw [byteLength_cons]
            omega

theorem min_le_byteLength_takeBytes (size : ℕ) (text : List Char) :
    min size (byteLength text) ≤ byteLength (takeBytes size text).1 := by
  induction text generalizing size with
  | nil => exact Nat.min_le_right _ _
  | cons c text ih =>
      rw [takeBytes]
      split
      next hsize => exact hsize ▸ Nat.min_le_left _ _
      next =>
        have hle := ih (size - c.utf8Size)
        dsimp only
        rw [byteLength_cons, byteLength_cons]
        omega

/-- Without its last character, a chunk would be too short. -/
theorem byteLength_takeBytes_le (size : ℕ) (text : List Char) :
    byteLength (takeBytes size text).1 ≤ size + 3 := by
  rcases List.eq_nil_or_concat (takeBytes size text).1 with
    hempty | ⟨front, last, hlast⟩
  · rw [hempty]
    exact Nat.zero_le _
  · rw [List.concat_eq_append] at hlast
    have hlt := byteLength_lt_of_takeBytes hlast (List.cons_ne_nil last [])
    have hfour := Char.utf8Size_le_four last
    rw [hlast, byteLength_append, byteLength_cons, byteLength_nil]
    omega

theorem settles_takeBytes (size : ℕ) (text : List Char) :
    Settles (encode text) (min size (encode text).length)
      (byteLength (takeBytes size text).1) := by
  have hwhole := takeBytes_append size text
  have hprefix : (takeBytes size text).1 <+: text := ⟨_, hwhole⟩
  rw [length_encode, settles_iff]
  refine ⟨min_le_byteLength_takeBytes size text,
    isBoundary_encode_iff.mpr ⟨_, _, hwhole.symm, rfl⟩, ?_⟩
  intro between hge hlt hboundary
  obtain ⟨before, after, rfl, rfl⟩ := isBoundary_encode_iff.mp hboundary
  -- What ends in front of the end of the chunk is a part of the chunk.
  rcases List.prefix_or_prefix_of_prefix hprefix
    (List.prefix_append before after) with hlong | ⟨rest, hrest⟩
  · exact absurd hlt (Nat.not_lt.mpr (byteLength_le_of_isPrefix hlong))
  · have hne : rest ≠ [] := by
      rintro rfl
      rw [← hrest, List.append_nil] at hlt
      exact Nat.lt_irrefl _ hlt
    have hshort := byteLength_lt_of_takeBytes hrest.symm hne
    have hle := byteLength_le_of_isPrefix hprefix
    omega

/-! ### The chunks of a text -/

section

variable {size : ℕ}

theorem takeBytes_cons (hsize : 1 ≤ size) (c : Char) (text : List Char) :
    takeBytes size (c :: text) =
      (c :: (takeBytes (size - c.utf8Size) text).1,
        (takeBytes (size - c.utf8Size) text).2) := by
  rw [takeBytes, if_neg (Nat.ne_of_gt hsize)]

/-- A chunk of whole characters is cut off. -/
theorem Feeds.text {chunk rest : List Char} {others : List (List UInt8)}
    (hne : chunk ≠ [])
    (hplace : Settles (encode (chunk ++ rest))
      (min size (encode (chunk ++ rest)).length) (byteLength chunk))
    (hrest : Feeds size (encode rest) others) :
    Feeds size (encode (chunk ++ rest)) (encode chunk :: others) := by
  have htake : (encode (chunk ++ rest)).take (byteLength chunk) =
      encode chunk := by
    rw [encode_append, ← length_encode, List.take_left]
  have hdrop : (encode (chunk ++ rest)).drop (byteLength chunk) =
      encode rest := by
    rw [encode_append, ← length_encode, List.drop_left]
  rw [← htake]
  refine .cut ?_ hplace (hdrop ▸ hrest)
  exact mt encode_eq_nil_iff.mp (List.append_ne_nil_of_left_ne_nil hne rest)

theorem feeds_chunks (hsize : 1 ≤ size) (text : List Char) :
    Feeds size (encode text) ((chunks size text).map encode) := by
  fun_induction chunks size text with
  | case1 => exact .nil
  | case2 c text _ ih =>
      have hwhole := takeBytes_append size (c :: text)
      have hplace := settles_takeBytes size (c :: text)
      rw [takeBytes_cons hsize] at hwhole hplace
      dsimp only at hwhole hplace
      rw [← hwhole] at hplace ⊢
      exact .text (List.cons_ne_nil c _) hplace ih

/-- The size has to be a byte at least, unless there is nothing to be fed. -/
theorem exists_feeds_iff {text : List Char} :
    (∃ fed, Feeds size (encode text) fed) ↔ 1 ≤ size ∨ text = [] := by
  constructor
  · rintro ⟨fed, h⟩
    rcases Nat.eq_zero_or_pos size with rfl | hsize
    · exact .inr (encode_eq_nil_iff.mp h.eq_nil_of_zero)
    · exact .inl hsize
  · rintro (hsize | rfl)
    · exact ⟨_, feeds_chunks hsize text⟩
    · exact ⟨[], .nil⟩

theorem bounds_of_mem_chunks (hsize : 1 ≤ size) {text chunk : List Char}
    (h : chunk ∈ chunks size text) :
    chunk ≠ [] ∧ byteLength chunk ≤ size + 3 := by
  fun_induction chunks size text with
  | case1 => exact absurd h List.not_mem_nil
  | case2 c text _ ih =>
      rcases List.mem_cons.mp h with rfl | hother
      · have hle := byteLength_takeBytes_le size (c :: text)
        rw [takeBytes_cons hsize] at hle
        exact ⟨List.cons_ne_nil _ _, hle⟩
      · exact ih hother

/-- A chunk ends, and the next one starts, on a boundary. -/
theorem isBoundary_between_chunks {text : List Char}
    {above below : List (List Char)} (h : chunks size text = above ++ below) :
    IsBoundary (encode text) (byteLength above.flatten) := by
  refine isBoundary_encode_iff.mpr ⟨above.flatten, below.flatten, ?_, rfl⟩
  rw [← List.flatten_append, ← h, flatten_chunks]

end

/-! ### What is found -/

theorem doneCode?_append_done (grown : List (List Char)) (code : List Char) :
    doneCode? (grown.map .grown ++ [.done code]) = some code := by
  rw [doneCode?, List.findSome?_append, List.findSome?_eq_none_iff.mpr]
  · rfl
  · rintro event hevent
    obtain ⟨text, -, rfl⟩ := List.mem_map.mp hevent
    rfl

/-- A stream that is told to finish reports the complete code in the end, and
only then. -/
theorem events_run_of_finish_mem {calls : List Call} (h : Call.finish ∈ calls) :
    ∃ (grown : List (List Char)) (code : List Char),
      (run {} calls).2 = grown.map .grown ++ [.done code] := by
  obtain ⟨grown, hreports⟩ := reports_initial.run calls
  have hfinished := phase_run_of_finish_mem reports_initial.isFresh h
  have hevents := hreports.events_eq
  rw [if_pos (isFinished_eq_true_iff.mpr hfinished)] at hevents
  exact ⟨grown, _, hevents⟩

theorem events_run_chunks (size : ℕ) (content : List Char) :
    ∃ grown : List (List Char),
      (run {} ((chunks size content).map .append ++ [.finish])).2 =
        grown.map .grown ++ [.done (extract size content)] := by
  have hfinish : Call.finish ∈
      (chunks size content).map Call.append ++ [.finish] := by simp
  obtain ⟨grown, code, hevents⟩ := events_run_of_finish_mem hfinish
  have hcode : extract size content = code := by
    rw [extract, hevents, doneCode?_append_done, Option.getD_some]
  exact ⟨grown, hcode ▸ hevents⟩

/-- Feeding a content to a stream in chunks of a byte or more comes to an end.
The chunks hold something, but no more than three bytes beyond their size; they
start and end between characters and make up the content.  After them the stream
is told to finish, and what is found is the only text that it has then reported
as complete. -/
theorem extract_feeds_content {size : ℕ} (hsize : 1 ≤ size)
    (content : List Char) :
    (∀ fed, Feeds size (encode content) fed ↔
      fed = (chunks size content).map encode) ∧
    (∀ chunk ∈ chunks size content,
      chunk ≠ [] ∧ byteLength chunk ≤ size + 3) ∧
    (∀ above below, chunks size content = above ++ below →
      IsBoundary (encode content) (byteLength above.flatten)) ∧
    (chunks size content).flatten = content ∧
    ∃ grown : List (List Char),
      (run {} ((chunks size content).map .append ++ [.finish])).2 =
        grown.map .grown ++ [.done (extract size content)] := by
  refine ⟨fun fed => ⟨fun h => ?_, ?_⟩, fun chunk => bounds_of_mem_chunks hsize,
    fun above below => isBoundary_between_chunks, flatten_chunks size content,
    events_run_chunks size content⟩
  · exact h.chunks_eq (feeds_chunks hsize content)
  · rintro rfl
    exact feeds_chunks hsize content

/-- In chunks of two bytes, of which one gets three bytes more and the next one
is a character of three. -/
theorem extract_feeds_content_multibyte :
    let content := "graph TD\nA[😀日]".toList
    let parts := ["gr", "ap", "h ", "TD", "\nA", "[😀", "日", "]"].map
      String.toList
    1 ≤ 2 ∧ chunks 2 content = parts ∧
      (∀ fed, Feeds 2 (encode content) fed ↔ fed = parts.map encode) ∧
      (∀ chunk ∈ parts, chunk ≠ [] ∧ byteLength chunk ≤ 2 + 3) ∧
      (∀ above below, parts = above ++ below →
        IsBoundary (encode content) (byteLength above.flatten)) ∧
      parts.flatten = content ∧
      ∃ grown : List (List Char),
        (run {} (parts.map .append ++ [.finish])).2 =
          grown.map .grown ++ [.done content] := by
  intro content parts
  have hsize : 1 ≤ 2 := by decide
  have hparts : chunks 2 content = parts := by decide +kernel
  have hcode : extract 2 content = content := by decide +kernel
  have h := extract_feeds_content hsize content
  rw [hparts, hcode] at h
  exact ⟨hsize, hparts, h⟩

end Stream

end Flowchart
