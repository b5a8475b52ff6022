import Flowchart.Proofs.BareStreams

/-!
# Where the code of a stream starts

Without a fence, the code of a stream starts at a keyword, and a keyword counts
only at the start of a line.  But a stream that scans sees no more than its
window.  Once more text has come than the window holds, the window may begin in
the middle of a line, and what stands first in it is then taken for the start
of a line.  There is no other way for code to start within a line.
-/

namespace Flowchart.Stream

open Text

/-- A position behind this text has only blanks before it in its line. -/
def StartsLine (before : List Char) : Prop :=
  ∃ above blanks, before = above ++ blanks ∧
    (∀ c ∈ above.getLast?, c = '\n') ∧ ∀ c ∈ blanks, isBlank c = true

theorem StartsLine.of_isBlank {blanks : List Char}
    (h : ∀ c ∈ blanks, isBlank c = true) : StartsLine blanks :=
  ⟨[], blanks, rfl, by simp, h⟩

theorem getLast?_preceding {line : List Char} (lines : List (List Char)) :
    (Keyword.preceding (line :: lines)).getLast? = some '\n' := by
  induction lines generalizing line with
  | nil => simp [Keyword.preceding]
  | cons next lines ih =>
      have hsplit : Keyword.preceding (line :: next :: lines) =
          (line ++ ['\n']) ++ Keyword.preceding (next :: lines) := rfl
      rw [hsplit, List.getLast?_append, ih, Option.some_or]

/-- The first keyword of a text starts a line of the text, and it does so behind
more text too, unless only blanks stand before it. -/
theorem startsLine_append_first? {text : List Char}
    {occurrence : Keyword.Occurrence}
    (h : Keyword.first? text = some occurrence) :
    (∀ c ∈ occurrence.before, isBlank c = true) ∨
      ∀ front, StartsLine (front ++ occurrence.before) := by
  rcases Keyword.first?_cases text with
    ⟨hnone, -⟩ | ⟨above, line, below, keyword, rest, -, -, -, hfirst⟩
  · exact absurd (hnone.symm.trans h) (by simp)
  · obtain rfl := Option.some.inj (hfirst.symm.trans h)
    have hblanks : ∀ c ∈ line.takeWhile isBlank, isBlank c = true :=
      fun c hc => List.mem_takeWhile_imp hc
    cases above with
    | nil => exact .inl hblanks
    | cons first above =>
        right
        intro front
        refine ⟨front ++ Keyword.preceding (first :: above), _,
          (List.append_assoc _ _ _).symm, ?_, hblanks⟩
        rw [List.getLast?_append, getLast?_preceding, Option.some_or]
        rintro c ⟨⟩
        rfl

/-! ### What a stream takes for the start -/

/-- Code starts at the first keyword of what the stream sees at some time: its
window, and the chunk that comes to it. -/
theorem exists_first?_of_mem_completed {read code : List Char}
    {chunks : List (List Char)}
    (hfence : ¬ Fence.taggedMark <:+: read ++ chunks.flatten)
    (h : code ∈ (scanning read).completed chunks) (hne : code ≠ []) :
    ∃ earlier later chunk rest occurrence, chunks = earlier ++ later ∧
      later.flatten = chunk ++ rest ∧
      Keyword.first? (lastWindow (read ++ earlier.flatten) ++ chunk) =
        some occurrence ∧ code <+: occurrence.onwards ++ rest := by
  induction chunks generalizing read with
  | nil =>
      -- A keyword that nothing follows counts once the stream is finished.
      rw [completed_nil, scanning] at h
      cases hfirst : Keyword.first? (lastWindow read) with
      | none =>
          simp only [finish, hfirst, doneCodes, List.filterMap_cons,
            List.filterMap_nil, List.mem_singleton] at h
          exact absurd h hne
      | some occurrence =>
          simp only [finish, hfirst, doneCodes, List.filterMap_cons,
            List.filterMap_nil, List.mem_singleton] at h
          refine ⟨[], [], [], [], occurrence, rfl, rfl, by simpa using hfirst, ?_⟩
          rw [List.append_nil, h]
          exact trim_keyword_isPrefix (Keyword.first?_split hfirst).1 _
  | cons chunk chunks ih =>
      rw [List.flatten_cons, ← List.append_assoc] at hfence
      cases hstart : codeStart? (lastWindow read ++ chunk) with
      | none =>
          rw [completed_quiet (append_scanning hstart)] at h
          obtain ⟨earlier, later, next, rest, occurrence, rfl, hlater, hfirst,
            hcode⟩ := ih hfence h
          refine ⟨chunk :: earlier, later, next, rest, occurrence, rfl, hlater,
            ?_, hcode⟩
          rwa [List.flatten_cons, ← List.append_assoc]
      | some start =>
          -- From here on, the stream collects all that comes.
          have hbare : ¬ Fence.taggedMark <:+: lastWindow read ++ chunk := by
            intro hinside
            obtain ⟨skipped, hskipped⟩ := lastWindow_suffix read
            apply hfence
            rw [← hskipped, List.append_assoc skipped, List.append_assoc skipped]
            exact List.infix_append_of_infix_right
              (List.infix_append_of_infix_left hinside)
          have hstart' : codeStart? ((scanning read).buffer ++ chunk) =
              some start := by
            simpa only [scanning] using hstart
          rw [completed_of_codeStart rfl rfl hstart', List.mem_singleton] at h
          rw [codeStart?_of_bare hbare] at hstart
          obtain ⟨occurrence, hfirst, hif⟩ := Option.bind_eq_some_iff.mp hstart
          split at hif
          next =>
            refine ⟨[], chunk :: chunks, chunk, chunks.flatten, occurrence, rfl,
              rfl, by simpa using hfirst, ?_⟩
            rw [h, ← Option.some.inj hif, Keyword.Occurrence.onwards,
              List.append_assoc]
            exact trim_upToMark_isPrefix (Keyword.first?_split hfirst).1 _
          next => exact absurd hif (by simp)

/-- The window begins behind more text than it holds, and only blanks stand
between its beginning and the position behind this text. -/
def StartsWindow (chunks : List (List Char)) (before : List Char) : Prop :=
  ∃ earlier later blanks, chunks = earlier ++ later ∧
    window < earlier.flatten.length ∧
    before =
      earlier.flatten.take (earlier.flatten.length - window) ++ blanks ∧
    ∀ c ∈ blanks, isBlank c = true

/-- Without a fence, the code of a stream stands in the text, and it starts a
line there, unless it stands first in a window that has moved into the line. -/
theorem code_startsLine_or_startsWindow {chunks : List (List Char)}
    (hfence : ¬ Fence.taggedMark <:+: chunks.flatten) {code : List Char}
    (hcode : code ∈ completed {} chunks) (hne : code ≠ []) :
    ∃ before after, chunks.flatten = before ++ code ++ after ∧
      (StartsLine before ∨ StartsWindow chunks before) := by
  rw [← scanning_nil] at hcode
  obtain ⟨earlier, later, chunk, rest, occurrence, rfl, hlater, hfirst, after,
    hafter⟩ := exists_first?_of_mem_completed hfence hcode hne
  rw [List.nil_append] at hfirst
  let skipped := earlier.flatten.take (earlier.flatten.length - window)
  have hsplit : skipped ++ lastWindow earlier.flatten = earlier.flatten :=
    List.take_append_drop _ _
  refine ⟨skipped ++ occurrence.before, after, ?_, ?_⟩
  · calc
      (earlier ++ later).flatten =
          skipped ++ (lastWindow earlier.flatten ++ chunk) ++ rest := by
        rw [List.flatten_append, hlater, ← List.append_assoc skipped, hsplit,
          List.append_assoc]
      _ = skipped ++ occurrence.before ++ (occurrence.onwards ++ rest) := by
        rw [← (Keyword.first?_split hfirst).2]
        simp
      _ = skipped ++ occurrence.before ++ code ++ after := by
        rw [← hafter]
        simp
  · rcases startsLine_append_first? hfirst with hblanks | hline
    · by_cases hlong : window < earlier.flatten.length
      · exact .inr ⟨earlier, later, _, rfl, hlong, rfl, hblanks⟩
      · have hempty : skipped = [] := by
          simp only [skipped, Nat.sub_eq_zero_of_le (Nat.le_of_not_lt hlong),
            List.take_zero]
        rw [hempty, List.nil_append]
        exact .inl (.of_isBlank hblanks)
    · exact .inl (hline skipped)

/-- The keyword is cut in two, and it starts the second line. -/
theorem code_startsLine_or_startsWindow_cut_keyword :
    let chunks := ["intro\n gra".toList, "ph TD\nA --> B".toList]
    let code := "graph TD\nA --> B".toList
    (¬ Fence.taggedMark <:+: chunks.flatten ∧ code ∈ completed {} chunks ∧
      code ≠ []) ∧
    ∃ before after, chunks.flatten = before ++ code ++ after ∧
      (StartsLine before ∨ StartsWindow chunks before) := by
  intro chunks code
  have hfence : ¬ Fence.taggedMark <:+: chunks.flatten := by decide
  have hcode : code ∈ completed {} chunks := by decide +kernel
  have hne : code ≠ [] := by decide
  exact ⟨⟨hfence, hcode, hne⟩, code_startsLine_or_startsWindow hfence hcode hne⟩

/-- The window moves past the first word of the line, up to the keyword. -/
theorem code_not_startsLine :
    ¬ ∀ (chunks : List (List Char)) (code : List Char),
      ¬ Fence.taggedMark <:+: chunks.flatten → code ∈ completed {} chunks →
        code ≠ [] → ∃ before after, chunks.flatten = before ++ code ++ after ∧
          StartsLine before := by
  intro h
  let word := List.replicate 2042 'y'
  let chunks := ["x graph ".toList, word]
  let code := "graph ".toList ++ word
  have hword {c : Char} (hc : c ≠ 'y') : c ∉ word :=
    fun hmem => hc (List.eq_of_mem_replicate hmem)
  have hfence : ¬ Fence.taggedMark <:+: chunks.flatten := by
    intro hinside
    have htick : '`' ∈ chunks.flatten := hinside.subset (by decide)
    simp [chunks, hword] at htick
  have hbreak : '\n' ∉ chunks.flatten := by simp [chunks, hword]
  have hcode : code ∈ completed {} chunks := by decide +kernel
  obtain ⟨before, after, htext, above, blanks, rfl, habove, hblanks⟩ :=
    h chunks code hfence hcode (by simp [code])
  obtain rfl : above = [] := by
    by_contra hne
    have hlast := List.getLast_mem hne
    rw [habove _ (List.getLast?_eq_some_getLast hne)] at hlast
    apply hbreak
    rw [htext]
    simp [hlast]
  have hhead : some 'x' = ([] ++ blanks ++ code ++ after).head? :=
    congrArg List.head? htext
  cases blanks with
  | nil => exact absurd (Option.some.inj hhead) (by decide)
  | cons blank blanks =>
      have hblank : isBlank 'x' = true := by
        rw [Option.some.inj hhead]
        exact hblanks blank List.mem_cons_self
      exact absurd hblank (by decide)

end Flowchart.Stream
