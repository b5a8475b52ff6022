import Flowchart.Proofs.Streaming
import Flowchart.Proofs.Withdrawal

/-!
# Streams of bare diagram text

Without a fence, a stream has to tell from what has arrived whether a keyword
opens a diagram.  It ends with the same code however the text is cut, just if
no line is withdrawn before the first one that opens a diagram: at the version
mark of a withdrawn line the stream goes on to collect, and nothing takes it
back.
-/

namespace Flowchart.Stream

open Text

/-- The code from the first keyword on. -/
def bareCode (text : List Char) : List Char :=
  match Keyword.first? text with
  | some occurrence => trim (Fence.upToMark occurrence.onwards)
  | none => []

/-- No line that comes before all diagrams is withdrawn. -/
def NoneWithdrawn (text : List Char) : Prop :=
  ∀ line ∈ (lines text).takeWhile (!Keyword.opensLine ·),
    Keyword.isWithdrawn line = false

instance (text : List Char) : Decidable (NoneWithdrawn text) :=
  inferInstanceAs (Decidable (∀ line ∈ _, _))

theorem codeStart?_of_bare {text : List Char}
    (h : ¬ Fence.taggedMark <:+: text) :
    codeStart? text =
      (Keyword.first? text).bind fun occurrence =>
        if occurrence.after.any (!isBlank ·) then some occurrence.onwards
        else none := by
  rw [codeStart?, cut?_eq_none_iff.mpr h]

/-- What counts as the first keyword of a text is still the first one when the
text goes on. -/
theorem first?_append {text more : List Char}
    {occurrence : Keyword.Occurrence}
    (h : Keyword.first? text = some occurrence)
    (hafter : ∃ c ∈ occurrence.after, isBlank c = false)
    (hstays : NoneWithdrawn (text ++ more)) :
    ∃ later, Keyword.first? (text ++ more) = some later ∧
      later.onwards = occurrence.onwards ++ more := by
  obtain ⟨above, last, first, under, hlines, -, hwhole⟩ :=
    Keyword.lines_append text more
  rcases Keyword.first?_cases text with
    ⟨hnone, -⟩ | ⟨top, line, below, keyword, rest, hsplit, htop, hopening, hfirst⟩
  · rw [hnone] at h
    exact absurd h (by simp)
  obtain rfl := Option.some.inj (hfirst.symm.trans h)
  have hlater : ∃ after,
      Keyword.first? (text ++ more) =
        some ⟨Keyword.preceding top ++ line.takeWhile isBlank, keyword,
          after⟩ := by
    rw [hlines] at hsplit
    rcases List.eq_nil_or_concat below with rfl | ⟨middle, final, rfl⟩
    · -- The keyword stands in the last line, which goes on.
      obtain ⟨rfl, rfl⟩ : above = top ∧ last = line := by
        simpa using List.append_inj' hsplit rfl
      have hrest : ∃ c ∈ rest, isBlank c = false := by
        simpa [Keyword.following] using hafter
      have hnot : Keyword.isWithdrawn (last ++ first) = false := by
        by_cases hopens : Keyword.opensLine (last ++ first) = true
        · simp [Keyword.isWithdrawn, hopens]
        · apply hstays
          rw [hwhole, List.takeWhile_append_of_pos (by simpa using htop)]
          simp [hopens]
      have hgrown :=
        Keyword.opening?_append_of_not_isWithdrawn hopening hrest hnot
      have hblanks : (last ++ first).takeWhile isBlank =
          last.takeWhile isBlank :=
        Keyword.takeWhile_isBlank_append hopening first
      rw [← hblanks]
      exact ⟨_, Keyword.first?_of_lines hwhole htop hgrown⟩
    · -- Another line follows already.
      have hparts : above ++ [last] = (top ++ line :: middle) ++ [final] := by
        simpa using hsplit
      obtain ⟨rfl, -⟩ := List.append_inj' hparts rfl
      rw [List.append_assoc, List.cons_append] at hwhole
      exact ⟨_, Keyword.first?_of_lines hwhole htop hopening⟩
  obtain ⟨after, hlater⟩ := hlater
  refine ⟨_, hlater, ?_⟩
  have hsplitText := (Keyword.first?_split hfirst).2
  have hsplitWhole := (Keyword.first?_split hlater).2
  apply List.append_cancel_left
  rw [hsplitWhole, ← List.append_assoc]
  exact congrArg (· ++ more) hsplitText.symm

theorem lastWindow_eq {text : List Char} (h : text.length ≤ window) :
    lastWindow text = text := by
  rw [lastWindow, Nat.sub_eq_zero_of_le h, List.drop_zero]

/-- A stream that has found no code yet ends with the code of a keyword that
nothing follows, or with none. -/
theorem completed_scanning_nil {read : List Char}
    (hlength : read.length ≤ window) (hfence : ¬ Fence.taggedMark <:+: read)
    (hread : codeStart? read = none) :
    (scanning read).completed [] = [bareCode read] := by
  rw [codeStart?_of_bare hfence] at hread
  rw [completed_nil, bareCode]
  cases hfirst : Keyword.first? read with
  | none =>
      simp only [finish, scanning, lastWindow_eq hlength, hfirst, doneCodes,
        List.filterMap_cons, List.filterMap_nil]
      rfl
  | some occurrence =>
      simp only [finish, scanning, lastWindow_eq hlength, hfirst, doneCodes,
        List.filterMap_cons, List.filterMap_nil]
      rw [hfirst, Option.bind_some] at hread
      have hblank : ∀ c ∈ occurrence.after, isBlank c = true := by
        simpa using hread
      have htick : ∀ c ∈ occurrence.onwards, c ≠ '`' := by
        rintro c hc rfl
        rcases List.mem_append.mp hc with hc | hc
        · exact Keyword.ne_backquote_of_mem (Keyword.first?_split hfirst).1 hc rfl
        · exact absurd (hblank _ hc) (by decide)
      have hall : Fence.upToMark (occurrence.onwards ++ []) =
          occurrence.onwards ++ Fence.upToMark [] := upToMark_append htick
      rw [List.append_nil] at hall
      rw [hall]
      change _ = [trim (occurrence.onwards ++ [])]
      rw [List.append_nil]

/-- A stream that finds its first keyword keeps to it. -/
theorem completed_scanning_first {read chunk : List Char}
    {occurrence : Keyword.Occurrence}
    (hlength : read.length ≤ window)
    (hfence : ¬ Fence.taggedMark <:+: read ++ chunk)
    (hfirst : Keyword.first? (read ++ chunk) = some occurrence)
    (hafter : ∃ c ∈ occurrence.after, isBlank c = false)
    (chunks : List (List Char)) :
    (scanning read).completed (chunk :: chunks) =
      [trim (Fence.upToMark (occurrence.onwards ++ chunks.flatten))] := by
  apply completed_of_codeStart rfl rfl
  rw [scanning, lastWindow_eq hlength, codeStart?_of_bare hfence, hfirst,
    Option.bind_some, if_pos]
  simpa using hafter

theorem codeStart?_eq_none_or {text : List Char}
    (hfence : ¬ Fence.taggedMark <:+: text) :
    codeStart? text = none ∨
      ∃ occurrence, Keyword.first? text = some occurrence ∧
        ∃ c ∈ occurrence.after, isBlank c = false := by
  cases hstart : codeStart? text with
  | none => exact .inl rfl
  | some code =>
      rw [codeStart?_of_bare hfence] at hstart
      obtain ⟨occurrence, hfirst, hif⟩ := Option.bind_eq_some_iff.mp hstart
      split at hif
      next hafter => exact .inr ⟨occurrence, hfirst, by simpa using hafter⟩
      next => exact absurd hif (by simp)

/-- As long as nothing is withdrawn, the stream decides on the first keyword of
the text. -/
theorem completed_scanning_bare {read : List Char}
    {chunks : List (List Char)}
    (hlength : (read ++ chunks.flatten).length ≤ window)
    (hfence : ¬ Fence.taggedMark <:+: read ++ chunks.flatten)
    (hread : codeStart? read = none)
    (hstays : NoneWithdrawn (read ++ chunks.flatten)) :
    (scanning read).completed chunks = [bareCode (read ++ chunks.flatten)] := by
  induction chunks generalizing read with
  | nil =>
      rw [List.flatten_nil, List.append_nil] at hlength hfence ⊢
      exact completed_scanning_nil hlength hfence hread
  | cons chunk chunks ih =>
      rw [List.flatten_cons, ← List.append_assoc] at hlength hfence hstays ⊢
      have hshort : read.length ≤ window := by
        simp only [List.length_append] at hlength
        omega
      have hpart : ¬ Fence.taggedMark <:+: read ++ chunk :=
        fun h => hfence (List.infix_append_of_infix_left h)
      rcases codeStart?_eq_none_or hpart with
        hnone | ⟨occurrence, hfirst, hafter⟩
      · have happend : (scanning read).append chunk =
            (scanning (read ++ chunk), []) := by
          apply append_scanning
          rw [lastWindow_eq hshort, hnone]
        rw [completed_quiet happend]
        exact ih hlength hfence hnone hstays
      · obtain ⟨later, hlater, honwards⟩ := first?_append hfirst hafter hstays
        rw [completed_scanning_first hshort hpart hfirst hafter, bareCode,
          hlater]
        change _ = [trim (Fence.upToMark later.onwards)]
        rw [honwards]

theorem completed_whole {text : List Char} (hlength : text.length ≤ window)
    (hfence : ¬ Fence.taggedMark <:+: text) :
    completed {} [text] = [bareCode text] := by
  have hempty : ([] : List Char).length ≤ window := Nat.zero_le window
  rw [← scanning_nil]
  rcases codeStart?_eq_none_or hfence with hnone | ⟨occurrence, hfirst, hafter⟩
  · have happend : (scanning []).append text = (scanning text, []) := by
      apply append_scanning
      rw [lastWindow_eq hempty]
      exact hnone
    rw [completed_quiet happend]
    exact completed_scanning_nil hlength hfence hnone
  · have hfound :=
      completed_scanning_first hempty hfence hfirst hafter []
    rw [hfound, List.flatten_nil, List.append_nil, bareCode, hfirst]

/-! ### Withdrawn lines -/

theorem exists_of_not_noneWithdrawn {text : List Char}
    (h : ¬ NoneWithdrawn text) :
    ∃ above line below, lines text = above ++ line :: below ∧
      (∀ line ∈ above, Keyword.opensLine line = false) ∧
      Keyword.isWithdrawn line = true := by
  simp only [NoneWithdrawn, not_forall, Bool.not_eq_false] at h
  obtain ⟨line, hmem, hwithdrawn⟩ := h
  obtain ⟨above, rest, hsplit⟩ := List.append_of_mem hmem
  refine ⟨above, line, rest ++ (lines text).dropWhile (!Keyword.opensLine ·),
    ?_, ?_, hwithdrawn⟩
  · rw [← List.cons_append, ← List.append_assoc, ← hsplit,
      List.takeWhile_append_dropWhile]
  · intro other hother
    have hother' : other ∈ (lines text).takeWhile (!Keyword.opensLine ·) := by
      rw [hsplit]
      exact List.mem_append_left _ hother
    simpa using List.mem_takeWhile_imp hother'

/-- Code that ends up in a stream starts with the text from which on it was
collected, as long as that holds no backquote and ends visibly. -/
theorem prefix_trim_upToMark {first last : Char} {inner : List Char}
    (hfirst : isWhiteSpace first = false) (hlast : isWhiteSpace last = false)
    (hticks : ∀ c ∈ first :: inner ++ [last], c ≠ '`') (rest : List Char) :
    first :: inner ++ [last] <+:
      trim (Fence.upToMark (first :: inner ++ last :: rest)) := by
  have hkept : Fence.upToMark (first :: inner ++ [last] ++ rest) =
      first :: inner ++ [last] ++ Fence.upToMark rest :=
    upToMark_append hticks
  rw [List.append_assoc, List.append_assoc] at hkept
  change _ <+: trim (Fence.upToMark (first :: inner ++ ([last] ++ rest)))
  rw [hkept]
  exact prefix_trim hfirst hlast (Fence.upToMark rest)

theorem trim_keyword_isPrefix {keyword : List Char}
    (h : keyword ∈ Keyword.all) (rest : List Char) :
    trim (keyword ++ rest) <+: keyword ++ rest := by
  obtain ⟨c, letters, rfl, hc⟩ := Keyword.exists_cons_of_mem h
  exact trim_isPrefix hc (letters ++ rest)

theorem trim_upToMark_isPrefix {keyword : List Char}
    (h : keyword ∈ Keyword.all) (rest : List Char) :
    trim (Fence.upToMark (keyword ++ rest)) <+: keyword ++ rest := by
  rw [upToMark_append fun _ => Keyword.ne_backquote_of_mem h]
  exact (trim_keyword_isPrefix h _).trans
    ((List.prefix_append_right_inj keyword).mpr (upToMark_isPrefix rest))

theorem not_prefix_bareCode {text mark : List Char} (hmark : mark ≠ [])
    (hline : '\n' ∉ mark)
    (h : ∀ more, Keyword.opening? (mark ++ more) = none) :
    ¬ mark <+: bareCode text := by
  intro hprefix
  rcases Keyword.first?_cases text with
    ⟨hnone, -⟩ | ⟨above, line, below, keyword, rest, -, -, hopening, hfirst⟩
  · rw [bareCode, hnone] at hprefix
    exact hmark (List.prefix_nil.mp hprefix)
  · rw [bareCode, hfirst] at hprefix
    obtain ⟨hmem, hopen, -⟩ := Keyword.opening?_eq_some_iff.mp hopening
    have hcode : mark <+: line.dropWhile isBlank ++ Keyword.following below := by
      rw [hopen, List.append_assoc]
      exact hprefix.trans (trim_upToMark_isPrefix hmem _)
    rcases prefix_append_cases hcode with ⟨more, hmore⟩ | ⟨more, heq, hne, hlap⟩
    · rw [← hmore, h more] at hopening
      exact absurd hopening (by simp)
    · apply hline
      obtain ⟨c, tail, rfl⟩ := List.exists_cons_of_ne_nil hne
      cases below with
      | nil => exact absurd (List.prefix_nil.mp hlap) hne
      | cons next below =>
          have hc : c = '\n' := (List.cons_prefix_cons.mp hlap).1
          rw [heq, hc]
          exact List.mem_append_right _ List.mem_cons_self

theorem exists_withdrawn_chunks {text : List Char}
    (hlength : text.length ≤ window) (hfence : ¬ Fence.taggedMark <:+: text)
    (h : ¬ NoneWithdrawn text) :
    ∃ start rest, start ++ rest = text ∧
      completed {} [start, rest] ≠ completed {} [text] := by
  obtain ⟨above, line, below, hlines, habove, hwithdrawn⟩ :=
    exists_of_not_noneWithdrawn h
  obtain ⟨hopens, keyword, hmem, version, hline, hversion⟩ :=
    Keyword.isWithdrawn_eq_true_iff.mp hwithdrawn
  obtain ⟨d, tail, rfl, hd⟩ := Keyword.startsVersion_eq_true_iff.mp hversion
  have hnot : Keyword.opening? (keyword ++ '-' :: 'v' :: d :: tail) = none := by
    rw [← hline]
    simpa [Keyword.opensLine] using hopens
  obtain ⟨stretch, last, after, htail, hlast, hticks, hnever⟩ :=
    Keyword.exists_withdrawal hmem hd hnot
  -- The first chunk ends behind the version mark.
  let blanks := line.takeWhile isBlank
  let start := Keyword.preceding above ++ (blanks ++ (keyword ++ ['-', 'v', d]))
  let rest := tail ++ Keyword.following below
  have hwhole : line = blanks ++ (keyword ++ '-' :: 'v' :: d :: tail) := by
    rw [← hline]
    exact List.takeWhile_append_dropWhile.symm
  have htext : start ++ rest = text := by
    rw [Keyword.eq_preceding_append hlines, hwhole]
    simp [start, rest]
  have hbreaks : ∀ other ∈ above ++ line :: below, '\n' ∉ other := by
    intro other hother
    rw [← hlines] at hother
    exact Keyword.not_mem_of_mem_lines hother
  have hblanks : ∀ c ∈ blanks, isBlank c = true :=
    fun c hc => List.mem_takeWhile_imp hc
  have hbreak : '\n' ∉ blanks ++ (keyword ++ '-' :: 'v' :: d :: tail) :=
    hwhole ▸ hbreaks line (by simp)
  have hstart : completed {} [start, rest] =
      [trim (Fence.upToMark (keyword ++ '-' :: 'v' :: d :: rest))] := by
    obtain ⟨before, hfirst⟩ := Keyword.exists_first?_version habove
      (fun other hother => hbreaks other (List.mem_append_left _ hother))
      (fun hmem => hbreak (by simp at hmem ⊢; tauto)) hblanks hmem hd
    have hempty : ([] : List Char).length ≤ window := Nat.zero_le window
    have hpart : ¬ Fence.taggedMark <:+: [] ++ start :=
      fun hinside => hfence (htext ▸ List.infix_append_of_infix_left hinside)
    rw [← scanning_nil,
      completed_scanning_first hempty hpart hfirst ⟨'-', by simp, by decide⟩]
    simp [Keyword.Occurrence.onwards]
  refine ⟨start, rest, htext, ?_⟩
  rw [hstart, completed_whole hlength hfence]
  intro hsame
  have hcode := (List.cons.inj hsame).1
  -- The code of the two chunks starts with a mark that opens no diagram, which
  -- the code of the whole text cannot do.
  have hplain := Keyword.ne_backquote_of_mem_version hmem hd hticks
  obtain ⟨c, letters, rfl, hc⟩ := Keyword.exists_cons_of_mem hmem
  let mark := c :: (letters ++ '-' :: 'v' :: d :: stretch) ++ [last]
  have hmark : mark <+: bareCode text := by
    have hrest : c :: letters ++ '-' :: 'v' :: d :: rest =
        c :: (letters ++ '-' :: 'v' :: d :: stretch) ++
          last :: (after ++ Keyword.following below) := by
      simp [rest, htail]
    rw [← hcode, hrest]
    apply prefix_trim_upToMark hc hlast
    simpa using hplain
  apply not_prefix_bareCode _ _ _ hmark
  · simp [mark]
  · rw [htail] at hbreak
    simp only [mark, List.mem_append, List.mem_cons, not_or] at hbreak ⊢
    tauto
  · intro more
    have hmore : mark ++ more =
        c :: letters ++ '-' :: 'v' :: d :: (stretch ++ last :: more) := by
      simp [mark]
    rw [hmore]
    exact hnever more

/-- The chunks of a bare text do not matter just if no line is withdrawn before
the first one that opens a diagram. -/
theorem completed_chunks_agree_iff {text : List Char}
    (hlength : text.length ≤ window)
    (hfence : ¬ Fence.taggedMark <:+: text) :
    (∀ first second : List (List Char), first.flatten = text →
      second.flatten = text → completed {} first = completed {} second) ↔
      NoneWithdrawn text := by
  constructor
  · intro hagree
    by_contra hnot
    obtain ⟨start, rest, htext, hne⟩ :=
      exists_withdrawn_chunks hlength hfence hnot
    exact hne (hagree [start, rest] [text] (by simp [htext]) (by simp))
  · intro hstays
    have hbare : ∀ chunks : List (List Char), chunks.flatten = text →
        completed {} chunks = [bareCode text] := by
      rintro chunks rfl
      rw [← scanning_nil]
      exact completed_scanning_bare hlength hfence rfl hstays
    intro first second hfirst hsecond
    rw [hbare first hfirst, hbare second hsecond]

theorem completed_chunks_agree_iff_state_diagram :
    let text := "pie --> crust\nstateDiagram-v2 %% a\nA --> B\n```".toList
    (text.length ≤ window ∧ ¬ Fence.taggedMark <:+: text) ∧
      ((∀ first second : List (List Char), first.flatten = text →
        second.flatten = text → completed {} first = completed {} second) ↔
        NoneWithdrawn text) ∧ NoneWithdrawn text := by
  intro text
  have hlength : text.length ≤ window := by decide
  have hfence : ¬ Fence.taggedMark <:+: text := by decide
  exact ⟨⟨hlength, hfence⟩, completed_chunks_agree_iff hlength hfence,
    by decide⟩

/-- A statement about a node opens a diagram where a chunk ends behind what
looks like a version mark. -/
theorem completed_chunks_disagree :
    ¬ ∀ text : List Char, text.length ≤ window →
      ¬ Fence.taggedMark <:+: text →
      ∀ first second : List (List Char), first.flatten = text →
        second.flatten = text → completed {} first = completed {} second := by
  intro h
  have hsame := h "stateDiagram-v2 --> done\ngraph TD\nA --> B".toList
    (by decide) (by decide)
    ["stateDiagram-v2".toList, " --> done\ngraph TD\nA --> B".toList]
    ["stateDiagram-v2 --> done\ngraph TD\nA --> B".toList]
    (by decide) (by decide)
  exact absurd hsame (by decide)

end Flowchart.Stream
