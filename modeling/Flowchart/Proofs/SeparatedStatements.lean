import Flowchart.Assembly
import Flowchart.Proofs.LineStatements

/-!
# Line feeds and semicolons

A line feed ends a statement wherever it stands outside of quotes, and a
semicolon ends one outside of quotes and brackets.  Texts that leave neither
open may therefore be put on lines of their own or behind each other with
semicolons in between: the statements are the same, and they stand at the same
places.
-/

namespace Flowchart

open Text

namespace Fragment

/-- The text fits on a line, leaves no quote and no bracket open there, and is
no comment. -/
structure StandsAlone (text : List Char) : Prop where
  unbroken : ∀ c ∈ text, isLineBreak c = false
  scanned_eq : scanned (.closed, 0) text = (.closed, 0)
  not_comment : ¬ ['%', '%'] <+: trimStart text

instance : DecidablePred StandsAlone := fun text =>
  have : Decidable (∀ c ∈ text, isLineBreak c = false) :=
    List.decidableBAll _ text
  decidable_of_iff
    ((∀ c ∈ text, isLineBreak c = false) ∧
      scanned (.closed, 0) text = (.closed, 0) ∧
      ¬ ['%', '%'] <+: trimStart text)
    ⟨fun ⟨unbroken, scanned_eq, not_comment⟩ =>
        ⟨unbroken, scanned_eq, not_comment⟩,
      fun ⟨unbroken, scanned_eq, not_comment⟩ =>
        ⟨unbroken, scanned_eq, not_comment⟩⟩

theorem trim_trimStart (text : List Char) : trim (trimStart text) = trim text := by
  have hsplit : text = text.takeWhile isWhiteSpace ++ trimStart text :=
    List.takeWhile_append_dropWhile.symm
  conv_rhs => rw [hsplit]
  exact (trim_append_of_isWhiteSpace _ fun c hc =>
    List.mem_takeWhile_imp hc).symm

/-- Blank lines and comments hold no statements. -/
theorem isSkipped_eq_true_iff {line : List Char} :
    isSkipped line = true ↔
      (∀ c ∈ line, isWhiteSpace c = true) ∨ ['%', '%'] <+: trimStart line := by
  have hblank : (trim line).isEmpty = true ↔
      ∀ c ∈ line, isWhiteSpace c = true := by
    rw [List.isEmpty_iff]
    constructor
    · intro hempty
      obtain ⟨tail, hline, htail⟩ := exists_eq_trim line
      rw [hempty, List.nil_append] at hline
      intro c hc
      rw [hline, List.mem_append] at hc
      exact hc.elim (fun hc => List.mem_takeWhile_imp hc) (htail c)
    · intro hwhite
      have htrim := trim_append_isWhiteSpace [] hwhite
      rwa [List.nil_append] at htrim
  have hcomment : (after? ['%', '%'] (trim line)).isSome = true ↔
      ['%', '%'] <+: trimStart line := by
    rw [Option.isSome_iff_ne_none, Ne, after?_eq_none_iff, not_not,
      ← trim_trimStart]
    constructor
    · rw [trim_trimStart]
      exact fun h => h.trans (dropWhileEnd_isPrefix isWhiteSpace _)
    · rintro ⟨rest, hrest⟩
      rw [← hrest]
      have hkept (rest : List Char) : ['%', '%'] <+: trim ('%' :: '%' :: rest) :=
        @prefix_trim '%' '%' [] (by decide) (by decide) rest
      exact hkept rest
  rw [isSkipped, Bool.or_eq_true, hblank, hcomment]

namespace StandsAlone

variable {text first second : List Char}

theorem closed (h : StandsAlone text) :
    Quote.closed.after text = .closed := by
  rw [← fst_scanned (.closed, 0), h.scanned_eq]

theorem dropWhileEnd_eq (h : StandsAlone text) (tail : List Char)
    (htail : ∀ c ∈ tail, isLineBreak c = true) :
    dropWhileEnd isLineBreak (text ++ tail) = text := by
  rw [dropWhileEnd_append_of_all text htail, dropWhileEnd,
    List.dropWhile_eq_self_iff.mpr, List.reverse_reverse]
  intro hne
  exact Bool.eq_false_iff.mp
    (h.unbroken _ (List.mem_reverse.mp (List.getElem_mem hne)))

/-- Behind a semicolon the next statement begins as on a line of its own. -/
theorem append (hfirst : StandsAlone first) (hsecond : StandsAlone second) :
    StandsAlone (first ++ ';' :: second) := by
  constructor
  · intro c hc
    rcases List.mem_append.mp hc with hc | hc
    · exact hfirst.unbroken c hc
    · rcases List.mem_cons.mp hc with rfl | hc
      · decide
      · exact hsecond.unbroken c hc
  · rw [scanned_append, hfirst.scanned_eq]
    exact hsecond.scanned_eq
  · intro hcomment
    rw [trimStart, List.dropWhile_append] at hcomment
    split at hcomment
    next =>
      rw [List.dropWhile_cons_of_neg (by decide)] at hcomment
      simp at hcomment
    next hne =>
      rcases prefix_append_cases hcomment with
        hinside | ⟨more, hmarks, hmore, rest, hrest⟩
      · exact hfirst.not_comment hinside
      · -- The marks would have to go on with the semicolon.
        obtain ⟨c, more, rfl⟩ := List.exists_cons_of_ne_nil hmore
        obtain ⟨rfl, -⟩ := List.cons.inj hrest
        have hmem : ';' ∈ ['%', '%'] := by simp [hmarks]
        exact absurd hmem (by decide)

/-- The statements of the text are those that it holds on a line of its own. -/
theorem ofLines_cons (start : ℕ) (tail : List Char)
    (htail : ∀ c ∈ tail, isLineBreak c = true) (h : StandsAlone text)
    (below : List Line) :
    ofLines (Line.ofRaw start (text ++ tail) :: below) =
      ofPieces start (pieces .closed 0 text) ++ ofLines below := by
  have hcontent : (Line.ofRaw start (text ++ tail)).content = text :=
    h.dropWhileEnd_eq tail htail
  cases hskipped : isSkipped (Line.ofRaw start (text ++ tail)).content with
  | true =>
      rw [ofLines, if_pos hskipped]
      rw [hcontent, isSkipped_eq_true_iff] at hskipped
      have hwhite := hskipped.resolve_right h.not_comment
      have htrim : trim text = [] := by
        have htrim := trim_append_isWhiteSpace [] hwhite
        rwa [List.nil_append] at htrim
      rw [pieces_isWhiteSpace .closed 0 hwhite]
      simp [ofPieces, ofPiece?, htrim]
  | false =>
      have hclosed :
          Quote.closed.after (Line.ofRaw start (text ++ tail)).content =
            .closed := by
        rw [hcontent, h.closed]
      rw [Fragment.ofLines_cons hskipped, joinedCount_of_closed hclosed,
        List.take_zero, List.drop_zero, LogicalLine.statements]
      simp only [joined, continued, List.append_nil, hcontent]
      rfl

end StandsAlone

/-- Texts on lines of their own hold the statements that they hold behind each
other. -/
theorem ofLines_rawLines (offset : ℕ) {texts : List (List Char)}
    (h : ∀ text ∈ texts, StandsAlone text) :
    ofLines (placeLines offset (rawLines texts)) =
      ofPieces offset (pieces .closed 0 ([';'].intercalate texts)) := by
  induction texts using rawLines.induct generalizing offset with
  | case1 =>
      rw [rawLines, placeLines, ofLines]
      rfl
  | case2 last hempty =>
      rw [rawLines, if_pos hempty, placeLines, ofLines,
        List.isEmpty_iff.mp hempty]
      rfl
  | case3 last hempty =>
      have hlast := (h last (by simp)).ofLines_cons offset [] (by simp) []
      rw [List.append_nil] at hlast
      rw [rawLines, if_neg hempty, placeLines, placeLines, hlast, ofLines]
      simp
  | case4 text below hne ih =>
      rw [List.forall_mem_cons] at h
      obtain ⟨next, below, rfl⟩ := List.exists_cons_of_ne_nil hne
      have hline := h.1.ofLines_cons offset ['\n'] isLineBreak_newline
      have hoffset : byteLength (text ++ ['\n']) = byteLength text + 1 := by
        rw [byteLength_append]
        rfl
      have htexts : [';'].intercalate (text :: next :: below) =
          text ++ ';' :: [';'].intercalate (next :: below) := by
        simp
      rw [rawLines, placeLines, hline, ih _ h.2, hoffset, htexts,
        pieces_append_separator h.1.scanned_eq, ofPieces_pieces_append,
        Nat.add_assoc]
      exact hne

theorem standsAlone_intercalate {texts : List (List Char)}
    (h : ∀ text ∈ texts, StandsAlone text) :
    StandsAlone ([';'].intercalate texts) := by
  induction texts with
  | nil => exact ⟨by simp, rfl, by decide⟩
  | cons text texts ih =>
      rw [List.forall_mem_cons] at h
      cases texts with
      | nil => simpa using h.1
      | cons next below =>
          have hnext := h.1.append (ih h.2)
          simpa using hnext

/-- It does not matter whether line feeds or semicolons separate the texts. -/
theorem ofText_intercalate {texts : List (List Char)}
    (h : ∀ text ∈ texts, StandsAlone text) :
    ofText (['\n'].intercalate texts) = ofText ([';'].intercalate texts) := by
  cases texts with
  | nil => rfl
  | cons text below =>
      have hwhole := standsAlone_intercalate h
      have hbreaks {text : List Char} (h : StandsAlone text) : '\n' ∉ text :=
        fun hmem => absurd (h.unbroken '\n' hmem) (by decide)
      have hone : ∀ line ∈ [[';'].intercalate (text :: below)],
          StandsAlone line := by
        simpa using hwhole
      have hlines : lines (['\n'].intercalate (text :: below)) =
          text :: below :=
        List.splitOn_intercalate '\n' (fun text hmem => hbreaks (h text hmem))
          (by simp)
      have hline : lines ([';'].intercalate (text :: below)) =
          [[';'].intercalate (text :: below)] := by
        have hsplit := List.splitOn_intercalate '\n'
          (fun line hmem => hbreaks (hone line hmem)) (by simp)
        rwa [List.intercalate_singleton] at hsplit
      rw [ofText, ofText, physicalLines, physicalLines, hlines, hline,
        ofLines_rawLines 0 h, ofLines_rawLines 0 hone]
      simp

end Fragment

namespace Diagram

/-- A diagram text may be written on one line: with semicolons in place of the
line feeds it is the same diagram, and the same is remarked at the same
places. -/
theorem parse_intercalate {texts : List (List Char)}
    (h : ∀ text ∈ texts, Fragment.StandsAlone text) :
    parse (['\n'].intercalate texts) = parse ([';'].intercalate texts) := by
  rw [parse, parse, Fragment.ofText_intercalate h]

theorem parse_intercalate_labels :
    (∀ text ∈ ["graph LR", "A[\"x; y\"] --> B(c;d)", " ", "subgraph g;?",
        "end) "].map String.toList, Fragment.StandsAlone text) ∧
      parse (['\n'].intercalate (["graph LR", "A[\"x; y\"] --> B(c;d)", " ",
          "subgraph g;?", "end) "].map String.toList)) =
        parse ([';'].intercalate (["graph LR", "A[\"x; y\"] --> B(c;d)", " ",
          "subgraph g;?", "end) "].map String.toList)) :=
  ⟨by decide, parse_intercalate (by decide)⟩

end Diagram

end Flowchart
