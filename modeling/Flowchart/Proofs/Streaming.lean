import Flowchart.Proofs.Keywords
import Flowchart.Proofs.Trimming
import Flowchart.Source.Stream

/-!
# Streams and their chunks

A stream reports the code of a tagged block as complete exactly once, and with
the same text however the block is cut into chunks.  While the stream collects
code, what it has let go of from its buffer holds no start of the closing
fence; while it scans, its window holds whatever part of the opening fence has
arrived.
-/

namespace Flowchart.Stream

open Text

/-! ### What a stream reports in the end -/

/-- The texts of the reports that the code is complete. -/
def doneCodes (events : List Event) : List (List Char) :=
  events.filterMap fun
    | .grown _ => none
    | .done code => some code

/-- The texts that a stream reports as complete when it takes in the chunks and
is then told to end. -/
def completed (stream : Stream) (chunks : List (List Char)) :
    List (List Char) :=
  doneCodes (stream.run (chunks.map .append ++ [.finish])).2

theorem completed_nil (stream : Stream) :
    stream.completed [] = doneCodes stream.finish.2 := by
  simp [completed, run, call]

theorem completed_cons (stream : Stream) (chunk : List Char)
    (chunks : List (List Char)) :
    stream.completed (chunk :: chunks) =
      doneCodes (stream.append chunk).2 ++
        (stream.append chunk).1.completed chunks := by
  simp [completed, run, call, doneCodes]

theorem completed_quiet {stream next : Stream} {chunk : List Char}
    (h : stream.append chunk = (next, [])) (chunks : List (List Char)) :
    stream.completed (chunk :: chunks) = next.completed chunks := by
  rw [completed_cons, h, doneCodes, List.filterMap_nil, List.nil_append]

theorem completed_finished {stream : Stream} (h : stream.phase = .finished)
    (chunks : List (List Char)) : stream.completed chunks = [] := by
  induction chunks with
  | nil => simp [completed_nil, finish, h, doneCodes]
  | cons chunk chunks ih =>
      rw [completed_cons]
      simp [append, h, doneCodes, ih]

/-! ### Collecting code -/

theorem collect_dropWhile (given code : List Char) :
    collect (given.dropWhile isLineBreak) code =
      (given ++ code).dropWhile isLineBreak := by
  rw [collect, List.dropWhile_append]

theorem length_pendingMark_le (text : List Char) :
    (pendingMark text).length ≤ 2 := by
  have h := List.Sublist.length_le
    (List.takeWhile_sublist (l := text.reverse.take 2) (· == '`'))
  rw [List.length_take] at h
  rw [pendingMark, List.length_reverse]
  omega

theorem take_append_pendingMark (text : List Char) :
    text.take (text.length - (pendingMark text).length) ++ pendingMark text =
      text := by
  have hsuffix : pendingMark text <:+ text := by
    rw [← List.reverse_prefix, pendingMark, List.reverse_reverse]
    exact (List.takeWhile_prefix _).trans (List.take_prefix _ _)
  exact List.suffix_iff_eq_append.mp hsuffix

theorem length_le_length_pendingMark {text start ticks : List Char}
    (h : text = start ++ ticks) (hticks : ∀ c ∈ ticks, c = '`')
    (hlength : ticks.length ≤ 2) :
    ticks.length ≤ (pendingMark text).length := by
  subst h
  rw [pendingMark, List.length_reverse, List.reverse_append, List.take_append,
    List.take_of_length_le (by simpa using hlength),
    List.takeWhile_append_of_pos (by simpa using hticks)]
  simp

/-- A stream that has taken in the given code.  What is no longer in the buffer
has been collected, and no closing fence starts there, whatever follows. -/
structure Collects (stream : Stream) (code : List Char) : Prop where
  phase_eq : stream.phase = .inCode
  length_buffer_le : stream.buffer.length ≤ 2
  exists_given : ∃ given, code = given ++ stream.buffer ∧
    stream.collected = given.dropWhile isLineBreak ∧
    ∀ start stretch, given = start ++ stretch → stretch ≠ [] →
      ∀ more, ¬ Fence.mark <+: stretch ++ (stream.buffer ++ more)

theorem collects_nil : Collects ⟨.inCode, [], []⟩ [] :=
  ⟨rfl, Nat.zero_le 2, [], rfl, rfl, by simp⟩

theorem eq_backquote_of_mem_mark {c : Char} (h : c ∈ Fence.mark) :
    c = '`' := by
  simpa [Fence.mark] using h

/-- A closing fence that starts before the pending backquotes would already be
complete. -/
theorem not_mark_before_pendingMark {text stretch : List Char}
    (start : List Char) (hopen : cut? Fence.mark text = none)
    (htext : text = start ++ stretch ++ pendingMark text)
    (hne : stretch ≠ []) (more : List Char) :
    ¬ Fence.mark <+: stretch ++ (pendingMark text ++ more) := by
  intro hmark
  rw [← List.append_assoc] at hmark
  rcases prefix_append_cases hmark with hinside | ⟨beyond, hticks, hbeyond, -⟩
  · apply cut?_eq_none_iff.mp hopen
    rw [htext, List.append_assoc]
    exact List.infix_append_of_infix_right hinside.isInfix
  · have hall : ∀ c ∈ stretch ++ pendingMark text, c = '`' := by
      intro c hc
      apply eq_backquote_of_mem_mark
      rw [hticks]
      exact List.mem_append_left beyond hc
    have hlength : (stretch ++ pendingMark text).length ≤ 2 := by
      have hthree : 3 = (stretch ++ pendingMark text).length + beyond.length :=
        (congrArg List.length hticks).trans List.length_append
      have := List.length_pos_of_ne_nil hbeyond
      omega
    have hpending := length_le_length_pendingMark
      (htext.trans (List.append_assoc start _ _)) hall hlength
    rw [List.length_append] at hpending
    have := List.length_pos_of_ne_nil hne
    omega

namespace Collects

variable {stream : Stream} {code : List Char}

theorem cut?_eq (h : Collects stream code) (more : List Char) :
    ∃ given, code = given ++ stream.buffer ∧
      stream.collected = given.dropWhile isLineBreak ∧
      cut? Fence.mark (code ++ more) =
        (cut? Fence.mark (stream.buffer ++ more)).map
          fun (inner, rest) => (given ++ inner, rest) := by
  obtain ⟨given, hcode, hcollected, hstart⟩ := h.exists_given
  refine ⟨given, hcode, hcollected, ?_⟩
  rw [hcode, List.append_assoc]
  apply cut?_append
  intro start stretch heq hne
  exact hstart start stretch heq hne more

theorem consumeCode_open (h : Collects stream code) {chunk : List Char}
    (hopen : cut? Fence.mark (stream.buffer ++ chunk) = none) :
    Collects
      (consumeCode { stream with buffer := stream.buffer ++ chunk }).1
      (code ++ chunk) := by
  obtain ⟨given, hcode, hcollected, hstart⟩ := h.exists_given
  let buffer := stream.buffer ++ chunk
  let fresh := buffer.take (buffer.length - (pendingMark buffer).length)
  have hsplit : fresh ++ pendingMark buffer = buffer :=
    take_append_pendingMark buffer
  have hnext :
      (consumeCode { stream with buffer := stream.buffer ++ chunk }).1 =
        ⟨.inCode, pendingMark buffer, collect stream.collected fresh⟩ := by
    simp only [consumeCode, hopen]
    rfl
  rw [hnext]
  refine ⟨rfl, length_pendingMark_le buffer, given ++ fresh, ?_, ?_, ?_⟩
  · rw [hcode, List.append_assoc, List.append_assoc, hsplit]
  · rw [hcollected, collect_dropWhile]
  · intro start stretch heq hne more
    -- A stretch within `fresh` concerns this chunk alone; one that begins
    -- earlier has been excluded for whatever follows, this chunk included.
    rcases List.append_eq_append_iff.mp heq with
      ⟨tail, -, hfresh⟩ | ⟨tail, hgiven, hstretch⟩
    · apply not_mark_before_pendingMark tail hopen _ hne
      rw [← hfresh, hsplit]
    · by_cases htail : tail = []
      · subst htail
        apply not_mark_before_pendingMark [] hopen _ hne
        rw [hstretch, List.nil_append, List.nil_append, hsplit]
      · have hold := hstart start tail hgiven htail (chunk ++ more)
        rw [hstretch, List.append_assoc, ← List.append_assoc fresh, hsplit]
        rwa [← List.append_assoc stream.buffer] at hold

/-- However the rest of the code arrives, it ends at the first closing fence,
or with the stream. -/
theorem completed_eq (h : Collects stream code) (chunks : List (List Char)) :
    stream.completed chunks =
      [trim (Fence.upToMark (code ++ chunks.flatten))] := by
  -- By induction on the chunks: while no fence is found, the stream still
  -- collects, with the chunk added to its code.
  induction chunks generalizing stream code with
  | nil =>
      obtain ⟨given, hcode, hcollected, hcut⟩ := h.cut?_eq []
      have hbuffer : cut? Fence.mark stream.buffer = none := by
        rw [cut?_eq_none_iff]
        intro hmark
        have hthree : 3 ≤ stream.buffer.length := hmark.length_le
        have := h.length_buffer_le
        omega
      rw [List.append_nil, List.append_nil, hbuffer] at hcut
      rw [completed_nil, List.flatten_nil, List.append_nil, Fence.upToMark,
        hcut]
      simp only [finish, h.phase_eq, doneCodes, List.filterMap_cons,
        List.filterMap_nil, Option.map_none]
      rw [hcollected, collect_dropWhile, ← hcode, trim_dropWhile_isLineBreak]
  | cons chunk chunks ih =>
      have happend : stream.append chunk =
          consumeCode { stream with buffer := stream.buffer ++ chunk } := by
        simp [append, h.phase_eq]
      rw [completed_cons, happend, List.flatten_cons, ← List.append_assoc]
      cases hcut : cut? Fence.mark (stream.buffer ++ chunk) with
      | none =>
          have hquiet : doneCodes (consumeCode
              { stream with buffer := stream.buffer ++ chunk }).2 = [] := by
            simp only [consumeCode, hcut]
            split <;> rfl
          rw [hquiet, List.nil_append, ih (h.consumeCode_open hcut)]
      | some cut =>
          obtain ⟨inner, rest⟩ := cut
          obtain ⟨given, -, hcollected, hwhole⟩ :=
            h.cut?_eq (chunk ++ chunks.flatten)
          rw [← List.append_assoc stream.buffer, cut?_append_right hcut]
            at hwhole
          simp only [consumeCode, hcut, doneCodes, List.filterMap_cons,
            List.filterMap_nil]
          rw [completed_finished rfl, List.append_nil, hcollected,
            collect_dropWhile, trim_dropWhile_isLineBreak, Fence.upToMark,
            List.append_assoc, hwhole]
          rfl

end Collects

theorem completed_of_codeStart {stream : Stream} {chunk code : List Char}
    (hphase : stream.phase = .scanning) (hcollected : stream.collected = [])
    (hcode : codeStart? (stream.buffer ++ chunk) = some code)
    (chunks : List (List Char)) :
    stream.completed (chunk :: chunks) =
      [trim (Fence.upToMark (code ++ chunks.flatten))] := by
  have happend : stream.append chunk =
      (⟨.inCode, [], []⟩ : Stream).append code := by
    simp [append, hphase, hcollected, hcode]
  rw [completed_cons, happend, ← completed_cons,
    collects_nil.completed_eq (code :: chunks)]
  rfl

/-! ### Scanning -/

theorem lastWindow_suffix (text : List Char) : lastWindow text <:+ text :=
  List.drop_suffix _ text

theorem lastWindow_append (text more : List Char) :
    lastWindow (lastWindow text ++ more) = lastWindow (text ++ more) := by
  let skipped := text.length - window
  have hsplit : text = text.take skipped ++ lastWindow text :=
    (List.take_append_drop skipped text).symm
  have hskipped : (text.take skipped).length = skipped := by
    rw [List.length_take]
    omega
  have hlength : (lastWindow text).length = text.length - skipped :=
    List.length_drop
  have hdrop : (text ++ more).length - window =
      (text.take skipped).length +
        ((lastWindow text ++ more).length - window) := by
    rw [hskipped, List.length_append, List.length_append, hlength]
    omega
  calc
    lastWindow (lastWindow text ++ more) =
        (text.take skipped ++ (lastWindow text ++ more)).drop
          ((text.take skipped).length +
            ((lastWindow text ++ more).length - window)) := by
      rw [← List.drop_drop, List.drop_left]
      rfl
    _ = lastWindow (text ++ more) := by
      rw [← hdrop, ← List.append_assoc, ← hsplit]
      rfl

/-- A stream that has not found any code in what it has read. -/
def scanning (read : List Char) : Stream :=
  ⟨.scanning, lastWindow read, []⟩

theorem scanning_nil : scanning [] = {} := by
  simp [scanning, lastWindow]

theorem append_scanning {read chunk : List Char}
    (h : codeStart? (lastWindow read ++ chunk) = none) :
    (scanning read).append chunk = (scanning (read ++ chunk), []) := by
  simp [append, scanning, h, lastWindow_append]

theorem upToMark_append {before text : List Char}
    (h : ∀ c ∈ before, c ≠ '`') :
    Fence.upToMark (before ++ text) = before ++ Fence.upToMark text := by
  have hcut : cut? Fence.mark (before ++ text) =
      (cut? Fence.mark text).map fun (inner, rest) => (before ++ inner, rest) := by
    apply cut?_append
    intro start stretch hbefore hne hmark
    obtain ⟨c, rest, rfl⟩ := List.exists_cons_of_ne_nil hne
    apply h c
    · rw [hbefore]
      simp
    · exact (List.cons_prefix_cons.mp hmark).1.symm
  rw [Fence.upToMark, hcut, Fence.upToMark]
  cases cut? Fence.mark text <;> rfl

theorem upToMark_isPrefix (text : List Char) : Fence.upToMark text <+: text := by
  unfold Fence.upToMark
  split
  next before rest hcut =>
    rw [eq_of_cut?_eq_some hcut, List.append_assoc]
    exact List.prefix_append _ _
  next => exact List.prefix_refl text

/-- The line break behind an opening fence does not count, and it makes no
difference whether it arrives with the fence. -/
theorem trim_upToMark_skipLineBreak (text more : List Char) :
    trim (Fence.upToMark (skipLineBreak text ++ more)) =
      trim (Fence.upToMark (text ++ more)) := by
  have hbreak : ∀ lineBreak rest : List Char,
      (∀ c ∈ lineBreak, c = '\r' ∨ c = '\n') →
      trim (Fence.upToMark (lineBreak ++ rest)) =
        trim (Fence.upToMark rest) := by
    intro lineBreak rest hall
    rw [upToMark_append, trim_append_of_isWhiteSpace]
    · intro c hc
      rcases hall c hc with rfl | rfl <;> decide
    · intro c hc
      rcases hall c hc with rfl | rfl <;> decide
  unfold skipLineBreak afterLineBreak?
  split
  next rest => exact (hbreak ['\n'] (rest ++ more) (by simp)).symm
  next rest => exact (hbreak ['\r', '\n'] (rest ++ more) (by simp)).symm
  next => rfl

/-! ### A tagged block -/

theorem codeStart?_of_mark {before : List Char}
    (h : ¬ Fence.taggedMark <:+: before) (rest : List Char) :
    codeStart? (before ++ (Fence.taggedMark ++ rest)) =
      some (skipLineBreak rest) := by
  rw [codeStart?, cut?_of_isUnbordered (by decide) h]

/-- Keywords hold letters only, so that none begins before a fence and ends in
it. -/
theorem keyword_not_infix {before : List Char}
    (h : ∀ keyword ∈ Keyword.all, ¬ keyword <:+: before)
    {keyword : List Char} (hkeyword : keyword ∈ Keyword.all) :
    ¬ keyword <:+: before ++ Fence.taggedMark := by
  have hfence : ∀ keyword ∈ Keyword.all, ¬ keyword <:+: Fence.taggedMark := by
    decide
  rw [List.infix_append_iff_ne_nil]
  rintro (hbefore | hinside | ⟨first, second, -, hne, rfl, -, hsecond⟩)
  · exact h keyword hkeyword hbefore
  · exact hfence keyword hkeyword hinside
  · obtain ⟨c, rest, rfl⟩ := List.exists_cons_of_ne_nil hne
    have hc : c = '`' := (List.cons_prefix_cons.mp hsecond).1
    have halpha := Keyword.isAlpha_of_mem hkeyword
      (List.mem_append_right first List.mem_cons_self)
    rw [hc] at halpha
    exact absurd halpha (by decide)

/-- Nothing starts the code before the fence is complete. -/
theorem codeStart?_eq_none {before read buffer : List Char}
    (hkeyword : ∀ keyword ∈ Keyword.all, ¬ keyword <:+: before)
    (hbefore : ¬ Fence.taggedMark <:+: before)
    (hread : read <+: before ++ Fence.taggedMark)
    (hlength : read.length < (before ++ Fence.taggedMark).length)
    (hbuffer : buffer <:+ read) : codeStart? buffer = none := by
  have hfence : cut? Fence.taggedMark buffer = none := by
    rw [cut?_eq_none_iff]
    intro hinside
    obtain ⟨missing, hmissing⟩ := hread
    have hsome : cut? Fence.taggedMark read ≠ none := by
      rw [Ne, cut?_eq_none_iff, not_not]
      exact hinside.trans hbuffer.isInfix
    obtain ⟨⟨inner, rest⟩, hcut⟩ := Option.ne_none_iff_exists'.mp hsome
    have hwhole := cut?_append_right hcut missing
    have hfirst := cut?_of_isUnbordered (by decide) hbefore []
    rw [List.append_nil] at hfirst
    rw [hmissing, hfirst] at hwhole
    have hempty : rest ++ missing = [] :=
      (Prod.mk.inj (Option.some.inj hwhole)).2.symm
    rw [(List.append_eq_nil_iff.mp hempty).2, List.append_nil] at hmissing
    rw [hmissing] at hlength
    exact lt_irrefl _ hlength
  have hnone : Keyword.first? buffer = none := by
    apply Keyword.first?_eq_none_of_not_infix
    intro keyword hmem hinside
    exact keyword_not_infix hkeyword hmem
      ((hinside.trans hbuffer.isInfix).trans hread.isInfix)
  rw [codeStart?, hfence, hnone]
  rfl

/-- The window always holds the part of the fence that has arrived. -/
theorem lastWindow_append_of_mark {before read chunk rest : List Char}
    (hlength : read.length < (before ++ Fence.taggedMark).length)
    (hread : read ++ chunk = before ++ (Fence.taggedMark ++ rest)) :
    ∃ kept, kept <:+ before ∧
      lastWindow read ++ chunk = kept ++ (Fence.taggedMark ++ rest) := by
  have hten : Fence.taggedMark.length = 10 := by decide
  rw [List.length_append, hten] at hlength
  have hskipped : read.length - window ≤ before.length := by
    unfold window
    omega
  refine ⟨before.drop (read.length - window), List.drop_suffix _ _, ?_⟩
  calc
    lastWindow read ++ chunk =
        (read ++ chunk).drop (read.length - window) := by
      rw [List.drop_append_of_le_length (Nat.sub_le _ _)]
      rfl
    _ = (before ++ (Fence.taggedMark ++ rest)).drop
        (read.length - window) := by rw [hread]
    _ = before.drop (read.length - window) ++ (Fence.taggedMark ++ rest) :=
      List.drop_append_of_le_length hskipped

/-- As long as the fence has not arrived completely, the stream scans on; then
it collects what follows the fence. -/
theorem completed_scanning {before after read : List Char}
    {chunks : List (List Char)}
    (hkeyword : ∀ keyword ∈ Keyword.all, ¬ keyword <:+: before)
    (hbefore : ¬ Fence.taggedMark <:+: before)
    (hlength : read.length < (before ++ Fence.taggedMark).length)
    (hread : read ++ chunks.flatten =
      before ++ (Fence.taggedMark ++ after)) :
    (scanning read).completed chunks = [trim (Fence.upToMark after)] := by
  induction chunks generalizing read with
  | nil =>
      rw [List.flatten_nil, List.append_nil] at hread
      rw [hread] at hlength
      simp only [List.length_append] at hlength
      omega
  | cons chunk chunks ih =>
      rw [List.flatten_cons, ← List.append_assoc] at hread
      by_cases hnext :
          (read ++ chunk).length < (before ++ Fence.taggedMark).length
      · have hpart : read ++ chunk <+: before ++ Fence.taggedMark := by
          apply List.prefix_of_prefix_length_le
            (List.prefix_append _ chunks.flatten) _ hnext.le
          rw [hread, ← List.append_assoc]
          exact List.prefix_append _ after
        have hsuffix : lastWindow read ++ chunk <:+ read ++ chunk := by
          obtain ⟨skipped, hskipped⟩ := lastWindow_suffix read
          exact ⟨skipped, by rw [← List.append_assoc, hskipped]⟩
        have hnone := codeStart?_eq_none hkeyword hbefore hpart hnext hsuffix
        rw [completed_quiet (append_scanning hnone)]
        exact ih hnext hread
      · -- This chunk completes the fence.
        have hfence : before ++ Fence.taggedMark <+: read ++ chunk := by
          apply List.prefix_of_prefix_length_le _
            (List.prefix_append _ chunks.flatten) (Nat.le_of_not_lt hnext)
          rw [hread, ← List.append_assoc]
          exact List.prefix_append _ after
        obtain ⟨rest, hrest⟩ := hfence
        have hafter : rest ++ chunks.flatten = after := by
          rw [← hrest, List.append_assoc, List.append_assoc] at hread
          exact List.append_cancel_left (List.append_cancel_left hread)
        obtain ⟨kept, hkept, hbuffer⟩ := lastWindow_append_of_mark hlength
          (hrest.symm.trans (List.append_assoc before _ rest))
        have hclean : ¬ Fence.taggedMark <:+: kept :=
          fun h => hbefore (h.trans hkept.isInfix)
        have hstart : codeStart? ((scanning read).buffer ++ chunk) =
            some (skipLineBreak rest) := by
          rw [scanning, hbuffer]
          exact codeStart?_of_mark hclean rest
        rw [completed_of_codeStart rfl rfl hstart,
          trim_upToMark_skipLineBreak, hafter]

theorem cut?_block {code : List Char} (h : ¬ Fence.mark <:+: code)
    (rest : List Char) :
    cut? Fence.mark (code ++ '\n' :: (Fence.mark ++ rest)) =
      some (code ++ ['\n'], rest) := by
  have hbreak : cut? Fence.mark ('\n' :: (Fence.mark ++ rest)) =
      some (['\n'], rest) := by
    have hafter : after? Fence.mark ('\n' :: (Fence.mark ++ rest)) = none := by
      rw [after?_eq_none_iff]
      intro hmark
      exact absurd (List.cons_prefix_cons.mp hmark).1 (by decide)
    rw [cut?, hafter, cut?_pattern]
    rfl
  rw [cut?_append, hbreak]
  · rfl
  · intro start stretch hcode hne hmark
    rcases prefix_append_cases hmark with hinside | ⟨more, heq, hmore, hlap⟩
    · apply h
      rw [hcode]
      exact List.infix_append_of_infix_right hinside.isInfix
    · obtain ⟨c, tail, rfl⟩ := List.exists_cons_of_ne_nil hmore
      have hc : c = '\n' := (List.cons_prefix_cons.mp hlap).1
      have hmem : c ∈ Fence.mark := by
        rw [heq]
        exact List.mem_append_right stretch List.mem_cons_self
      rw [eq_backquote_of_mem_mark hmem] at hc
      exact absurd hc (by decide)

theorem taggedBody?_append {before text : List Char}
    (h : ∀ start stretch, before = start ++ stretch → stretch ≠ [] →
      ¬ Fence.taggedMark <+: stretch ++ text) :
    Fence.taggedBody? (before ++ text) = Fence.taggedBody? text := by
  induction before with
  | nil => rfl
  | cons c before ih =>
      have hblock : Fence.taggedBlock? (c :: (before ++ text)) = none := by
        have hafter : after? Fence.taggedMark (c :: (before ++ text)) = none :=
          after?_eq_none_iff.mpr (h [] (c :: before) rfl (by simp))
        rw [Fence.taggedBlock?, hafter]
        rfl
      have htail : ∀ start stretch, before = start ++ stretch →
          stretch ≠ [] → ¬ Fence.taggedMark <+: stretch ++ text := by
        intro start stretch heq
        exact h (c :: start) stretch (by rw [heq, List.cons_append])
      rw [List.cons_append, Fence.taggedBody?, hblock, ← ih htail]

theorem taggedBody?_block {code : List Char} (h : ¬ Fence.mark <:+: code)
    (rest : List Char) :
    Fence.taggedBody? (Fence.taggedMark ++
        '\n' :: (code ++ '\n' :: (Fence.mark ++ rest))) =
      some (code ++ ['\n']) := by
  have hblock : Fence.taggedBlock? (Fence.taggedMark ++
      '\n' :: (code ++ '\n' :: (Fence.mark ++ rest))) =
        some (code ++ ['\n'], rest) := by
    rw [Fence.taggedBlock?, after?_append, ← cut?_block h rest]
    rfl
  obtain ⟨c, tail, htext⟩ := List.exists_cons_of_ne_nil
    (show Fence.taggedMark ++
      '\n' :: (code ++ '\n' :: (Fence.mark ++ rest)) ≠ [] by simp)
  rw [htext] at hblock ⊢
  rw [Fence.taggedBody?, hblock]

/-- A stream ends with the code of a tagged block. -/
theorem completed_block {before code rest : List Char}
    {chunks : List (List Char)}
    (hkeyword : ∀ keyword ∈ Keyword.all, ¬ keyword <:+: before)
    (hbefore : ¬ Fence.taggedMark <:+: before)
    (hcode : ¬ Fence.mark <:+: code)
    (hchunks : chunks.flatten =
      before ++ (Fence.taggedMark ++
        '\n' :: (code ++ '\n' :: (Fence.mark ++ rest)))) :
    completed {} chunks = [trim code] := by
  have hten : Fence.taggedMark.length = 10 := by decide
  have hstart : ([] : List Char).length <
      (before ++ Fence.taggedMark).length := by
    rw [List.length_append, hten, List.length_nil]
    omega
  have hbody : Fence.upToMark
      ('\n' :: (code ++ '\n' :: (Fence.mark ++ rest))) =
        ['\n'] ++ (code ++ ['\n']) := by
    change Fence.upToMark
      (['\n'] ++ (code ++ '\n' :: (Fence.mark ++ rest))) = _
    rw [upToMark_append (by simp), Fence.upToMark, cut?_block hcode]
  calc
    completed {} chunks =
        [trim (Fence.upToMark
          ('\n' :: (code ++ '\n' :: (Fence.mark ++ rest))))] := by
      rw [← scanning_nil]
      exact completed_scanning hkeyword hbefore hstart hchunks
    _ = [trim code] := by
      rw [hbody, trim_append_of_isWhiteSpace _ isWhiteSpace_newline,
        trim_append_isWhiteSpace code isWhiteSpace_newline]

theorem extract_block {before code : List Char}
    (hbefore : ¬ Fence.taggedMark <:+: before)
    (hcode : ¬ Fence.mark <:+: code) (rest : List Char) :
    Fence.extract (before ++ (Fence.taggedMark ++
        '\n' :: (code ++ '\n' :: (Fence.mark ++ rest)))) = trim code := by
  rw [Fence.extract, taggedBody?_append
    (not_starts_before_of_isUnbordered (by decide) hbefore _),
    taggedBody?_block hcode]
  exact trim_append_isWhiteSpace code isWhiteSpace_newline

/-- A tagged block is found with the same body in a stream, however it is cut
into chunks, and in the whole text. -/
theorem completed_tagged_block {before code rest : List Char}
    {chunks : List (List Char)}
    (hkeyword : ∀ keyword ∈ Keyword.all, ¬ keyword <:+: before)
    (hbefore : ¬ Fence.taggedMark <:+: before)
    (hcode : ¬ Fence.mark <:+: code)
    (hchunks : chunks.flatten =
      before ++ (Fence.taggedMark ++
        '\n' :: (code ++ '\n' :: (Fence.mark ++ rest)))) :
    completed {} chunks = [trim code] ∧
      Fence.extract chunks.flatten = trim code := by
  constructor
  · exact completed_block hkeyword hbefore hcode hchunks
  · rw [hchunks]
    exact extract_block hbefore hcode rest

theorem completed_tagged_block_cut_fences :
    let before := "Here it is:\n".toList
    let code := "graph TD\nA[`x`]".toList
    let rest := "\nDone.".toList
    let chunks := ["Here it is:\n``", "`merm", "", "aid\ngraph TD\nA[`x",
      "`]\n``", "`\nDo", "ne."].map String.toList
    ((∀ keyword ∈ Keyword.all, ¬ keyword <:+: before) ∧
      ¬ Fence.taggedMark <:+: before ∧ ¬ Fence.mark <:+: code ∧
      chunks.flatten = before ++ (Fence.taggedMark ++
        '\n' :: (code ++ '\n' :: (Fence.mark ++ rest)))) ∧
    completed {} chunks = [trim code] ∧
      Fence.extract chunks.flatten = trim code := by
  intro before code rest chunks
  have hkeyword : ∀ keyword ∈ Keyword.all, ¬ keyword <:+: before := by decide
  have hbefore : ¬ Fence.taggedMark <:+: before := by decide
  have hcode : ¬ Fence.mark <:+: code := by decide
  have hchunks : chunks.flatten = before ++ (Fence.taggedMark ++
      '\n' :: (code ++ '\n' :: (Fence.mark ++ rest))) := by decide
  exact ⟨⟨hkeyword, hbefore, hcode, hchunks⟩,
    completed_tagged_block hkeyword hbefore hcode hchunks⟩

end Flowchart.Stream
