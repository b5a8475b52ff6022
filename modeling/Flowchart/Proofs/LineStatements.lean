import Flowchart.Proofs.LogicalLines

/-!
# The statements of a logical line

The statements of a logical line are cut from it one behind the other.  What is
left between them is white space and the semicolons outside quotes and brackets,
and where the quotes of the line are closed, so are those of its statements.
-/

namespace Flowchart

/-- The bytes of a span. -/
instance : Membership ℕ Span where
  mem span position := span.start ≤ position ∧ position < span.stop

theorem Span.mem_iff {span : Span} {position : ℕ} :
    position ∈ span ↔ span.start ≤ position ∧ position < span.stop :=
  Iff.rfl

namespace Fragment

open Text

/-- The quotes and the brackets that are open behind one more character. -/
def scan (state : Quote × ℕ) (c : Char) : Quote × ℕ :=
  (state.1.step c, depthAfter state.1 state.2 c)

/-- The quotes and the brackets that are open behind the text. -/
def scanned (state : Quote × ℕ) (text : List Char) : Quote × ℕ :=
  text.foldl scan state

def LogicalLine.span (line : LogicalLine) : Span :=
  Span.ofLength line.start (byteLength line.content)

/-! ### Cutting a text -/

/-- The fragments are cut one after the other from the text at the offset, and
the characters that are left between them stand where they may. -/
inductive Cuts (gap : ℕ → Char → Prop) : ℕ → List Char → List Fragment → Prop
  | done {offset : ℕ} : Cuts gap offset [] []
  | skip {offset : ℕ} {c : Char} {text : List Char}
      {fragments : List Fragment} :
      gap offset c → Cuts gap (offset + c.utf8Size) text fragments →
        Cuts gap offset (c :: text) fragments
  | take {offset : ℕ} {text rest : List Char} {fragments : List Fragment} :
      Cuts gap (offset + byteLength text) rest fragments →
        Cuts gap offset (text ++ rest)
          (⟨text, Span.ofLength offset (byteLength text)⟩ :: fragments)

namespace Cuts

variable {gap : ℕ → Char → Prop} {offset : ℕ} {text : List Char}
  {fragments : List Fragment}

theorem append (h : Cuts gap offset text fragments) {rest : List Char}
    {others : List Fragment}
    (hrest : Cuts gap (offset + byteLength text) rest others) :
    Cuts gap offset (text ++ rest) (fragments ++ others) := by
  induction h with
  | done => exact hrest
  | skip hgap _ ih =>
      rw [byteLength_cons, ← Nat.add_assoc] at hrest
      exact .skip hgap (ih hrest)
  | take _ ih =>
      rw [byteLength_append, ← Nat.add_assoc] at hrest
      rw [List.append_assoc]
      exact .take (ih hrest)

theorem mono (h : Cuts gap offset text fragments) {gap' : ℕ → Char → Prop}
    (hgap : ∀ position c, gap position c → gap' position c) :
    Cuts gap' offset text fragments := by
  induction h with
  | done => exact .done
  | skip hc _ ih => exact .skip (hgap _ _ hc) ih
  | take _ ih => exact .take ih

theorem of_gaps (h : ∀ before c after, text = before ++ c :: after →
    gap (offset + byteLength before) c) : Cuts gap offset text [] := by
  induction text generalizing offset with
  | nil => exact .done
  | cons c text ih =>
      refine .skip (h [] c text rfl) (ih ?_)
      rintro before d after rfl
      have hd := h (c :: before) d after rfl
      rwa [byteLength_cons, ← Nat.add_assoc] at hd

theorem of_isWhiteSpace
    (hgap : ∀ position c, isWhiteSpace c = true → gap position c)
    (h : ∀ c ∈ text, isWhiteSpace c = true) : Cuts gap offset text [] := by
  apply of_gaps
  rintro before c after rfl
  exact hgap _ c (h c (by simp))

/-- Each fragment is the part of the text at its span. -/
theorem exists_split (h : Cuts gap offset text fragments) {fragment : Fragment}
    (hmem : fragment ∈ fragments) :
    ∃ before after, text = before ++ (fragment.text ++ after) ∧
      fragment.span = Span.ofLength (offset + byteLength before)
        (byteLength fragment.text) := by
  induction h with
  | done => cases hmem
  | skip _ _ ih =>
      obtain ⟨before, after, rfl, hspan⟩ := ih hmem
      refine ⟨_ :: before, after, rfl, ?_⟩
      rw [hspan, byteLength_cons, Nat.add_assoc]
  | take _ ih =>
      rcases List.mem_cons.mp hmem with rfl | hmem
      · exact ⟨[], _, rfl, rfl⟩
      · obtain ⟨before, after, rfl, hspan⟩ := ih hmem
        refine ⟨_ ++ before, after, (List.append_assoc _ _ _).symm, ?_⟩
        rw [hspan, byteLength_append, Nat.add_assoc]

theorem bounds (h : Cuts gap offset text fragments) {fragment : Fragment}
    (hmem : fragment ∈ fragments) :
    offset ≤ fragment.span.start ∧
      fragment.span.stop ≤ offset + byteLength text := by
  obtain ⟨before, after, rfl, hspan⟩ := h.exists_split hmem
  rw [hspan]
  simp only [Span.ofLength, byteLength_append]
  omega

theorem pairwise (h : Cuts gap offset text fragments) :
    fragments.Pairwise fun first second =>
      first.span.stop ≤ second.span.start := by
  induction h with
  | done => exact .nil
  | skip _ _ ih => exact ih
  | take hrest ih =>
      refine .cons ?_ ih
      intro fragment hmem
      exact (hrest.bounds hmem).1

/-- A character that no fragment holds stands where it may. -/
theorem gap_of_not_mem (h : Cuts gap offset text fragments)
    {before after : List Char} {c : Char} (htext : text = before ++ c :: after)
    (hout : ∀ fragment ∈ fragments,
      offset + byteLength before ∉ fragment.span) :
    gap (offset + byteLength before) c := by
  induction h generalizing before with
  | done => simp at htext
  | skip hgap _ ih =>
      cases before with
      | nil =>
          obtain ⟨rfl, -⟩ := List.cons.inj htext
          exact hgap
      | cons d before =>
          obtain ⟨rfl, rfl⟩ := List.cons.inj htext
          rw [byteLength_cons, ← Nat.add_assoc] at hout ⊢
          exact ih rfl hout
  | @take offset first rest others _ ih =>
      rw [List.forall_mem_cons] at hout
      have hbehind (inner : List Char) (hbefore : before = first ++ inner)
          (hrest : rest = inner ++ c :: after) :
          gap (offset + byteLength before) c := by
        rw [hbefore, byteLength_append, ← Nat.add_assoc] at hout ⊢
        exact ih hrest hout.2
      rcases List.append_eq_append_iff.mp htext with
        ⟨inner, hbefore, hrest⟩ | ⟨inner, hfirst, hrest⟩
      · exact hbehind inner hbefore hrest
      · cases inner with
        | nil => exact hbehind [] (by simpa using hfirst.symm) hrest.symm
        | cons d inner =>
            obtain ⟨rfl, -⟩ := List.cons.inj hrest
            refine absurd ⟨Nat.le_add_right _ _, ?_⟩ hout.1
            have hpos := Char.utf8Size_pos c
            rw [hfirst]
            simp only [Span.ofLength, byteLength_append, byteLength_cons]
            omega

end Cuts

/-! ### Statements of a logical line -/

theorem after_trim (text : List Char) :
    Quote.closed.after (trim text) = .closed ↔
      Quote.closed.after text = .closed := by
  obtain ⟨tail, htext, htail⟩ := exists_eq_trim text
  conv_rhs => rw [htext]
  rw [after_append_left fun c hc => List.mem_takeWhile_imp hc,
    after_append_eq_closed_iff htail]

/-- A text is one piece, or its first piece ends at a semicolon outside quotes
and brackets. -/
theorem pieces_cases (quote : Quote) (depth : ℕ) (text : List Char) :
    pieces quote depth text = [text] ∨
      ∃ first rest, text = first ++ ';' :: rest ∧
        scanned (quote, depth) first = (.closed, 0) ∧
        pieces quote depth text = first :: pieces .closed 0 rest := by
  induction text generalizing quote depth with
  | nil => exact .inl rfl
  | cons c text ih =>
      by_cases hsplit : quote = .closed ∧ c = ';' ∧ depth = 0
      · obtain ⟨rfl, rfl, rfl⟩ := hsplit
        exact .inr ⟨[], text, rfl, rfl, rfl⟩
      · rw [pieces_cons hsplit]
        rcases ih (quote.step c) (depthAfter quote depth c) with
          hone | ⟨first, rest, rfl, hstate, hmore⟩
        · exact .inl (by rw [hone, List.modifyHead_cons])
        · refine .inr ⟨c :: first, rest, rfl, hstate, ?_⟩
          rw [hmore, List.modifyHead_cons]

/-- Induction on the pieces of a text. -/
theorem pieces_induction {motive : List Char → Prop}
    (one : ∀ text, pieces .closed 0 text = [text] → motive text)
    (more : ∀ first rest, scanned (.closed, 0) first = (.closed, 0) →
      pieces .closed 0 (first ++ ';' :: rest) =
        first :: pieces .closed 0 rest →
      motive rest → motive (first ++ ';' :: rest))
    (text : List Char) : motive text := by
  induction hlength : text.length using Nat.strong_induction_on
    generalizing text with
  | h length ih =>
      rcases pieces_cases .closed 0 text with
        hone | ⟨first, rest, rfl, hstate, hmore⟩
      · exact one text hone
      · have hlt : rest.length < length := by
          rw [← hlength, List.length_append, List.length_cons]
          omega
        exact more first rest hstate hmore (ih rest.length hlt rest rfl)

theorem scanned_append (state : Quote × ℕ) (first second : List Char) :
    scanned state (first ++ second) = scanned (scanned state first) second :=
  List.foldl_append

theorem fst_scanned (state : Quote × ℕ) (text : List Char) :
    (scanned state text).1 = state.1.after text := by
  induction text generalizing state with
  | nil => rfl
  | cons c text ih => exact ih (scan state c)

theorem cuts_ofPiece? {gap : ℕ → Char → Prop}
    (hgap : ∀ position c, isWhiteSpace c = true → gap position c) (offset : ℕ)
    (piece : List Char) :
    Cuts gap offset piece (ofPiece? offset piece).toList := by
  obtain ⟨tail, hpiece, htail⟩ := exists_eq_trim piece
  have hlead : ∀ c ∈ piece.takeWhile isWhiteSpace, isWhiteSpace c = true :=
    fun c hc => List.mem_takeWhile_imp hc
  rw [ofPiece?]
  split
  next hempty =>
    rw [List.isEmpty_iff.mp hempty, List.nil_append] at hpiece
    have hwhole : Cuts gap offset (piece.takeWhile isWhiteSpace ++ tail) [] :=
      (Cuts.of_isWhiteSpace hgap hlead).append (.of_isWhiteSpace hgap htail)
    rw [← hpiece] at hwhole
    exact hwhole
  next =>
    let start := offset + byteLength (piece.takeWhile isWhiteSpace)
    have htrimmed : Cuts gap start (trim piece ++ tail)
        [⟨trim piece, Span.ofLength start (byteLength (trim piece))⟩] :=
      .take (.of_isWhiteSpace hgap htail)
    have hwhole := (Cuts.of_isWhiteSpace hgap hlead).append htrimmed
    rw [← hpiece] at hwhole
    exact hwhole

theorem cuts_pieces {gap : ℕ → Char → Prop}
    (hgap : ∀ position c, isWhiteSpace c = true → gap position c) (offset : ℕ)
    (text : List Char)
    (hseparator : ∀ before after, text = before ++ ';' :: after →
      scanned (.closed, 0) before = (.closed, 0) →
        gap (offset + byteLength before) ';') :
    Cuts gap offset text (ofPieces offset (pieces .closed 0 text)) := by
  induction text using pieces_induction generalizing offset with
  | one text hone =>
      rw [hone]
      simpa [ofPieces] using cuts_ofPiece? hgap offset text
  | more first rest hstate hmore ih =>
      rw [hmore, ofPieces]
      refine (cuts_ofPiece? hgap offset first).append
        (.skip (hseparator first rest rfl hstate) (ih _ ?_))
      rintro before after rfl hbefore
      have hwhole : scanned (.closed, 0) (first ++ ';' :: before) =
          (.closed, 0) := by
        rw [scanned_append, hstate]
        exact hbefore
      have hgap := hseparator (first ++ ';' :: before) after (by simp) hwhole
      simpa [Nat.add_assoc] using hgap

theorem exists_piece_of_mem_ofPieces {offset : ℕ} {pieces : List (List Char)}
    {fragment : Fragment} (h : fragment ∈ ofPieces offset pieces) :
    ∃ piece ∈ pieces, fragment.text = trim piece ∧ trim piece ≠ [] := by
  induction pieces generalizing offset with
  | nil => cases h
  | cons piece others ih =>
      rw [ofPieces, List.mem_append, Option.mem_toList] at h
      rcases h with hfirst | hother
      · rw [ofPiece?] at hfirst
        split at hfirst
        next => cases hfirst
        next hne =>
          refine ⟨piece, List.mem_cons_self, ?_, by simpa using hne⟩
          rw [← Option.some.inj hfirst]
      · obtain ⟨found, hfound, htext⟩ := ih hother
        exact ⟨found, List.mem_cons_of_mem piece hfound, htext⟩

/-- The pieces of a text whose quotes are closed have closed quotes. -/
theorem after_pieces {text : List Char}
    (h : Quote.closed.after text = .closed) :
    ∀ piece ∈ pieces .closed 0 text, Quote.closed.after piece = .closed := by
  induction text using pieces_induction with
  | one text hone => simpa [hone] using h
  | more first rest hstate hmore ih =>
      have hfirst : Quote.closed.after first = .closed := by
        rw [← fst_scanned (.closed, 0), hstate]
      rw [Quote.after_append, hfirst] at h
      rw [hmore, List.forall_mem_cons]
      exact ⟨hfirst, ih h⟩

theorem pieces_append_separator {quote : Quote} {depth : ℕ} {before : List Char}
    (h : scanned (quote, depth) before = (.closed, 0)) (after : List Char) :
    pieces quote depth (before ++ ';' :: after) =
      pieces quote depth before ++ pieces .closed 0 after := by
  induction before generalizing quote depth with
  | nil =>
      obtain ⟨rfl, rfl⟩ := Prod.mk.inj h
      rfl
  | cons c before ih =>
      by_cases hsplit : quote = .closed ∧ c = ';' ∧ depth = 0
      · obtain ⟨rfl, rfl, rfl⟩ := hsplit
        have hstate : scanned (.closed, 0) before = (.closed, 0) := h
        simp [pieces, ih hstate]
      · rw [List.cons_append, pieces_cons hsplit, pieces_cons hsplit, ih h]
        obtain ⟨first, others, hpieces⟩ := List.exists_cons_of_ne_nil
          (pieces_ne_nil (quote.step c) (depthAfter quote depth c) before)
        rw [hpieces]
        rfl

theorem ofPieces_pieces_append (offset : ℕ) (before : List Char)
    (others : List (List Char)) :
    ofPieces offset (pieces .closed 0 before ++ others) =
      ofPieces offset (pieces .closed 0 before) ++
        ofPieces (offset + byteLength before + 1) others := by
  induction before using pieces_induction generalizing offset with
  | one before hone => simp [hone, ofPieces]
  | more first rest _ hmore ih =>
      have hsemicolon : ';'.utf8Size = 1 := by decide
      rw [hmore, List.cons_append, ofPieces, ofPieces, List.append_assoc, ih,
        byteLength_append, byteLength_cons, hsemicolon]
      simp only [Nat.add_assoc]

namespace LogicalLine

variable {line : LogicalLine} {fragment : Fragment}

theorem cuts_statements (line : LogicalLine) :
    Cuts (fun _ _ => True) line.start line.content line.statements :=
  cuts_pieces (fun _ _ _ => trivial) line.start line.content
    fun _ _ _ _ => trivial

/-- No statement goes on over a semicolon outside quotes and brackets. -/
theorem not_mem_span_of_separator {before after : List Char}
    (hline : line.content = before ++ ';' :: after)
    (hstate : scanned (.closed, 0) before = (.closed, 0))
    (h : fragment ∈ line.statements) :
    line.start + byteLength before ∉ fragment.span := by
  rw [statements, hline, pieces_append_separator hstate,
    ofPieces_pieces_append, List.mem_append] at h
  rw [Span.mem_iff]
  rcases h with hfirst | hsecond
  · have hstop := ((cuts_statements ⟨line.start, before⟩).bounds hfirst).2
    dsimp only at hstop
    omega
  · have hstart := ((cuts_statements
      ⟨line.start + byteLength before + 1, after⟩).bounds hsecond).1
    dsimp only at hstart
    omega

theorem text_of_mem_statements (h : fragment ∈ line.statements) :
    fragment.text ≠ [] ∧ trim fragment.text = fragment.text := by
  obtain ⟨piece, -, htext, hne⟩ := exists_piece_of_mem_ofPieces h
  rw [htext]
  exact ⟨hne, (isTrimmed_trim piece).trim_eq⟩

theorem endsInQuotes_of_mem_statements (h : fragment ∈ line.statements)
    (hclosed : endsInQuotes line.content = false) :
    endsInQuotes fragment.text = false := by
  obtain ⟨piece, hpiece, htext, -⟩ := exists_piece_of_mem_ofPieces h
  rw [endsInQuotes_eq_false_iff] at hclosed ⊢
  rw [htext, after_trim]
  exact after_pieces hclosed piece hpiece

theorem start_mem_span (h : fragment ∈ line.statements) :
    fragment.span.start ∈ fragment.span := by
  obtain ⟨before, after, -, hspan⟩ := line.cuts_statements.exists_split h
  obtain ⟨c, text, htext⟩ :=
    List.exists_cons_of_ne_nil (text_of_mem_statements h).1
  have hpos := Char.utf8Size_pos c
  rw [Span.mem_iff, hspan, htext]
  simp only [Span.ofLength, byteLength_cons]
  omega

theorem mem_span_of_mem_statements (h : fragment ∈ line.statements)
    {position : ℕ} (hposition : position ∈ fragment.span) :
    position ∈ line.span := by
  have hbounds := line.cuts_statements.bounds h
  rw [Span.mem_iff] at hposition ⊢
  simp only [span, Span.ofLength]
  omega

end LogicalLine

end Fragment

end Flowchart
