import Flowchart.Proofs.LineStatements

/-!
# Where statements stand

The statements of a text are pieces of it, one behind the other.  What lies
between them is white space, comments, and the semicolons that separate them:
nothing else of the text is lost.
-/

namespace Flowchart.Fragment

open Text

/-! ### What is left out -/

/-- Outside quotes and brackets of its logical line, a semicolon stands at the
position. -/
def SeparatorAt (lines : List Line) (position : ℕ) : Prop :=
  ∃ line ∈ logicalLines lines, ∃ before after,
    line.content = before ++ ';' :: after ∧
    scanned (.closed, 0) before = (.closed, 0) ∧
    position = line.start + byteLength before

/-- The position lies in a comment that no logical line is joined with. -/
def CommentAt (lines : List Line) (position : ℕ) : Prop :=
  (∃ line ∈ lines, ['%', '%'] <+: trim line.content ∧
    position ∈ Span.ofLength line.start (byteLength line.content)) ∧
  ∀ line ∈ logicalLines lines, position ∉ line.span

/-! ### Statements of a text -/

theorem logicalLines_ordered {offset : ℕ} {lines : List Line}
    (h : ArePlaced offset lines) :
    (∀ line ∈ logicalLines lines, offset ≤ line.span.start) ∧
      (logicalLines lines).Pairwise fun first second =>
        first.span.stop ≤ second.span.start := by
  induction lines using logicalLines.induct generalizing offset with
  | case1 => simp [logicalLines]
  | case2 line below hskipped ih =>
      rw [logicalLines_of_skipped below hskipped]
      obtain ⟨hstart, hordered⟩ := ih h.2.2
      exact ⟨fun line hline => (Nat.le_add_right _ _).trans (hstart line hline),
        hordered⟩
  | case3 line below hskipped ih =>
      obtain ⟨ending, -, -, hplaced⟩ :=
        exists_textOf_drop_eq h (joinedCount line below)
      obtain ⟨hstart, hordered⟩ := ih hplaced
      have hoffset := h.1
      rw [logicalLines_of_not_skipped below hskipped, List.forall_mem_cons,
        List.pairwise_cons]
      refine ⟨⟨hoffset.ge, ?_⟩, ?_, hordered⟩
      · intro other hother
        have hle := hstart other hother
        omega
      · intro other hother
        have hle := hstart other hother
        simp only [LogicalLine.span, Span.ofLength] at hle ⊢
        omega

theorem eq_of_mem_span {lines : List LogicalLine}
    (h : lines.Pairwise fun first second =>
      first.span.stop ≤ second.span.start) {line other : LogicalLine}
    (hline : line ∈ lines) (hother : other ∈ lines) {position : ℕ}
    (hposition : position ∈ line.span) (hshared : position ∈ other.span) :
    line = other := by
  rw [Span.mem_iff] at hposition hshared
  induction lines with
  | nil => cases hline
  | cons first rest ih =>
      rw [List.pairwise_cons] at h
      rcases List.mem_cons.mp hline with rfl | hrest <;>
        rcases List.mem_cons.mp hother with rfl | hrest'
      · rfl
      · have hle := h.1 other hrest'
        omega
      · have hle := h.1 line hrest
        omega
      · exact ih h.2 hrest hrest'

/-- The character may be left out: it is white space or a separator, or it
stands in a comment. -/
def Gap (lines : List Line) (position : ℕ) (c : Char) : Prop :=
  isWhiteSpace c = true ∨ SeparatorAt lines position ∨ CommentAt lines position

theorem Gap.of_skipped {line : Line} {below : List Line} {position : ℕ}
    {c : Char} (hskipped : isSkipped line.content = true)
    (h : Gap below position c) :
    Gap (line :: below) position c := by
  have hlogical := logicalLines_of_skipped below hskipped
  refine h.imp_right (Or.imp ?_ ?_)
  · rintro ⟨logical, hmem, hseparates⟩
    exact ⟨logical, hlogical ▸ hmem, hseparates⟩
  · rintro ⟨⟨comment, hmem, hcomment⟩, hout⟩
    exact ⟨⟨comment, List.mem_cons_of_mem line hmem, hcomment⟩,
      hlogical ▸ hout⟩

/-- The logical line in front ends before the lines that are not joined with it
begin. -/
theorem Gap.of_not_skipped {offset : ℕ} {line : Line} {below : List Line}
    {position : ℕ} {c : Char} (hplaced : ArePlaced offset (line :: below))
    (hskipped : ¬ isSkipped line.content = true)
    (h : Gap (below.drop (joinedCount line below)) position c) :
    Gap (line :: below) position c := by
  have hlogical := logicalLines_of_not_skipped below hskipped
  obtain ⟨ending, -, -, hbelow⟩ :=
    exists_textOf_drop_eq hplaced (joinedCount line below)
  refine h.imp_right (Or.imp ?_ ?_)
  · rintro ⟨logical, hmem, hseparates⟩
    exact ⟨logical, hlogical ▸ List.mem_cons_of_mem _ hmem, hseparates⟩
  · rintro ⟨⟨comment, hmem, hcomment, hinside⟩, hout⟩
    refine ⟨⟨comment, List.mem_cons_of_mem line (List.mem_of_mem_drop hmem),
      hcomment, hinside⟩, ?_⟩
    rw [hlogical, List.forall_mem_cons]
    refine ⟨?_, hout⟩
    have hstart := le_start_of_mem hbelow hmem
    have hoffset := hplaced.1
    rw [Span.mem_iff] at hinside ⊢
    simp only [LogicalLine.span, Span.ofLength] at hinside ⊢
    omega

/-- Nothing is cut from a blank line or a comment. -/
theorem cuts_content_of_skipped {offset : ℕ} {line : Line} {below : List Line}
    (h : ArePlaced offset (line :: below))
    (hskipped : isSkipped line.content = true) :
    Cuts (Gap (line :: below)) offset line.content [] := by
  have hbelow := (logicalLines_ordered h.2.2).1
  have hoffset := h.1
  rw [← logicalLines_of_skipped below hskipped] at hbelow
  rw [isSkipped, Bool.or_eq_true] at hskipped
  obtain ⟨tail, hcontent, htail⟩ := exists_eq_trim line.content
  apply Cuts.of_gaps
  intro before c after hsplit
  rcases hskipped with hblank | hcomment
  · left
    have hmem : c ∈ line.content := by simp [hsplit]
    rw [List.isEmpty_iff.mp hblank, List.nil_append] at hcontent
    rw [hcontent, List.mem_append] at hmem
    exact hmem.elim (fun hc => List.mem_takeWhile_imp hc) (htail c)
  · right
    right
    obtain ⟨rest, hrest⟩ := Option.isSome_iff_exists.mp hcomment
    have hprefix : ['%', '%'] <+: trim line.content :=
      ⟨rest, (after?_eq_some_iff.mp hrest).symm⟩
    have hpos := Char.utf8Size_pos c
    have hlength : byteLength line.content =
        byteLength before + (c.utf8Size + byteLength after) := by
      rw [hsplit, byteLength_append, byteLength_cons]
    refine ⟨⟨line, List.mem_cons_self, hprefix, ?_⟩, ?_⟩
    · rw [Span.mem_iff]
      simp only [Span.ofLength]
      omega
    · intro logical hlogical hmem
      have hle := hbelow logical hlogical
      rw [Span.mem_iff] at hmem
      rw [byteLength_append] at hle
      omega

theorem cuts_ofLines {offset : ℕ} {lines : List Line}
    (h : ArePlaced offset lines) :
    Cuts (Gap lines) offset (textOf lines) (ofLines lines) := by
  have hwhite (lines : List Line) : ∀ position c, isWhiteSpace c = true →
      Gap lines position c := fun _ _ hc => .inl hc
  induction lines using logicalLines.induct generalizing offset with
  | case1 =>
      rw [ofLines]
      exact .done
  | case2 line below hskipped ih =>
      rw [ofLines, if_pos hskipped]
      have hline := (cuts_content_of_skipped h hskipped).append
        (Cuts.of_isWhiteSpace (hwhite _) h.2.1)
      exact hline.append ((ih h.2.2).mono fun _ _ => .of_skipped hskipped)
  | case3 line below hskipped ih =>
      obtain ⟨ending, hending, htext, hplaced⟩ :=
        exists_textOf_drop_eq h (joinedCount line below)
      rw [ofLines_cons (by simpa using hskipped), htext]
      refine Cuts.append ?_ ((Cuts.of_isWhiteSpace (hwhite _) hending).append
        ((ih hplaced).mono fun _ _ => .of_not_skipped h hskipped))
      rw [← h.1]
      refine cuts_pieces (hwhite _) line.start _ ?_
      intro before after hcontent hstate
      have hmem :=
        logicalLines_of_not_skipped below hskipped ▸ List.mem_cons_self
      exact .inr (.inl ⟨_, hmem, before, after, hcontent, hstate, rfl⟩)

/-- The fragments are cut from the text in order, and all that matters of it is
in them. -/
structure Divides (fragments : List Fragment) (source : List Char) : Prop where
  ordered : fragments.Pairwise fun first second =>
    first.span.start < second.span.start ∧ first.span.stop ≤ second.span.start
  texts : ∀ fragment ∈ fragments,
    fragment.text ≠ [] ∧ trim fragment.text = fragment.text ∧
      ∃ before after, source = before ++ (fragment.text ++ after) ∧
        fragment.span =
          Span.ofLength (byteLength before) (byteLength fragment.text)
  covered : ∀ before c after, source = before ++ c :: after →
    isWhiteSpace c = false →
      ((∃ fragment ∈ fragments, byteLength before ∈ fragment.span) ↔
        ¬ SeparatorAt (physicalLines source) (byteLength before) ∧
          ¬ CommentAt (physicalLines source) (byteLength before))
  closed : ∀ line ∈ logicalLines (physicalLines source),
    endsInQuotes line.content = false →
      ∀ fragment ∈ fragments, line.span.start ≤ fragment.span.start →
        fragment.span.stop ≤ line.span.stop →
          endsInQuotes fragment.text = false

theorem exists_logicalLine {lines : List Line} {fragment : Fragment}
    (h : fragment ∈ ofLines lines) :
    ∃ line ∈ logicalLines lines, fragment ∈ line.statements := by
  rwa [ofLines_eq, List.mem_flatMap] at h

/-- What is left out is not part of a statement. -/
theorem not_mem_span_of_mem_ofLines {offset : ℕ} {lines : List Line}
    (h : ArePlaced offset lines) {position : ℕ}
    (hleft : SeparatorAt lines position ∨ CommentAt lines position)
    {fragment : Fragment} (hmem : fragment ∈ ofLines lines) :
    position ∉ fragment.span := by
  obtain ⟨line, hline, hfragment⟩ := exists_logicalLine hmem
  intro hposition
  have hinside := LogicalLine.mem_span_of_mem_statements hfragment hposition
  rcases hleft with hseparator | hcomment
  · obtain ⟨other, hother, before, after, hcontent, hstate, rfl⟩ := hseparator
    have hpos := Char.utf8Size_pos ';'
    have hshared : other.start + byteLength before ∈ other.span := by
      rw [Span.mem_iff]
      simp only [LogicalLine.span, Span.ofLength, hcontent, byteLength_append,
        byteLength_cons]
      omega
    obtain rfl := eq_of_mem_span (logicalLines_ordered h).2 hline hother hinside
      hshared
    exact LogicalLine.not_mem_span_of_separator hcontent hstate hfragment
      hposition
  · exact hcomment.2 line hline hinside

/-- The statements of a text are cut from it without a loss. -/
theorem ofText_divides (source : List Char) :
    Divides (ofText source) source := by
  have hplaced : ArePlaced 0 (physicalLines source) := arePlaced_placeLines 0 _
  have hcuts := cuts_ofLines hplaced
  rw [textOf_physicalLines] at hcuts
  constructor
  · refine hcuts.pairwise.imp_of_mem fun {first second} hfirst _ hle => ?_
    obtain ⟨line, -, hline⟩ := exists_logicalLine hfirst
    exact ⟨(LogicalLine.start_mem_span hline).2.trans_le hle, hle⟩
  · intro fragment hmem
    obtain ⟨line, -, hline⟩ := exists_logicalLine hmem
    obtain ⟨hne, htrim⟩ := LogicalLine.text_of_mem_statements hline
    obtain ⟨before, after, hsource, hspan⟩ := hcuts.exists_split hmem
    exact ⟨hne, htrim, before, after, hsource, by rw [hspan, Nat.zero_add]⟩
  · intro before c after hsource hc
    constructor
    · rintro ⟨fragment, hmem, hposition⟩
      rw [← not_or]
      exact fun hleft =>
        not_mem_span_of_mem_ofLines hplaced hleft hmem hposition
    · rintro ⟨hseparator, hcomment⟩
      by_contra! hout
      rw [← Nat.zero_add (byteLength before)] at hout
      have hgap := hcuts.gap_of_not_mem hsource hout
      rw [Nat.zero_add] at hgap
      rcases hgap with hwhite | hseparator' | hcomment'
      · rw [hc] at hwhite
        cases hwhite
      · exact hseparator hseparator'
      · exact hcomment hcomment'
  · intro line hline hclosed fragment hmem hstart hstop
    obtain ⟨other, hother, hfragment⟩ := exists_logicalLine hmem
    have hposition := LogicalLine.start_mem_span hfragment
    have hinside : fragment.span.start ∈ line.span :=
      ⟨hstart, hposition.2.trans_le hstop⟩
    obtain rfl := eq_of_mem_span (logicalLines_ordered hplaced).2 hline hother
      hinside (LogicalLine.mem_span_of_mem_statements hfragment hposition)
    exact LogicalLine.endsInQuotes_of_mem_statements hfragment hclosed

end Flowchart.Fragment
