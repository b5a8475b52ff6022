import Flowchart.Proofs.StreamReports

/-!
# The states of a stream

What a stream keeps follows from the text that it has taken in.  While it scans,
it keeps the end of this text.  While it collects, the collected code and the
backquotes that are held back make up all that follows the start signal, line
breaks in front aside.  When a closing fence has ended it, the collected code is
what stands between the start signal and the first fence behind it.
-/

namespace Flowchart.Stream

open Text

/-- The stream that has taken in the chunks. -/
def fed (chunks : List (List Char)) : Stream :=
  (run {} (chunks.map Call.append)).1

theorem fed_nil : fed [] = {} :=
  rfl

theorem fed_concat (chunks : List (List Char)) (chunk : List Char) :
    fed (chunks ++ [chunk]) = ((fed chunks).append chunk).1 := by
  rw [fed, List.map_append, List.map_singleton, run_append]
  rfl

/-! ### The start signal -/

/-- What stands behind the start signal of a text.  The signal is the first
opening fence or, if there is none, the first keyword, once more than blanks
follow it.  The keyword itself belongs to the code. -/
inductive IsSignal (text : List Char) : List Char → Prop
  | fence {before rest : List Char}
      (htext : text = before ++ (Fence.taggedMark ++ rest))
      (hfirst : ¬ Fence.taggedMark <:+: before) : IsSignal text rest
  | keyword {occurrence : Keyword.Occurrence}
      (hbare : ¬ Fence.taggedMark <:+: text)
      (hfirst : Keyword.first? text = some occurrence)
      (hafter : ∃ c ∈ occurrence.after, isBlank c = false) :
      IsSignal text occurrence.onwards

/-- The text behind the start signal.  A stream that scans finds the signal when
one more chunk comes to what its window holds. -/
inductive Signals : List (List Char) → List Char → Prop
  | found {earlier later : List (List Char)} {chunk rest : List Char}
      (hscanning : (fed earlier).phase = .scanning)
      (hsignal : IsSignal (lastWindow earlier.flatten ++ chunk) rest) :
      Signals (earlier ++ chunk :: later) (rest ++ later.flatten)

namespace IsSignal

variable {text rest : List Char}

theorem exists_codeStart? (h : IsSignal text rest) :
    ∃ code, codeStart? text = some code := by
  cases h with
  | @fence before rest htext hfirst =>
      rw [htext]
      exact ⟨skipLineBreak rest, codeStart?_of_mark hfirst rest⟩
  | @keyword occurrence hbare hfirst hafter =>
      refine ⟨occurrence.onwards, ?_⟩
      rw [codeStart?, cut?_eq_none_iff.mpr hbare]
      have hany : occurrence.after.any (!isBlank ·) = true := by
        simpa using hafter
      simp only [hfirst, Option.bind_some, hany, if_true]

theorem unique (h : IsSignal text rest) {other : List Char}
    (hother : IsSignal text other) : rest = other := by
  cases h with
  | fence htext hfirst =>
      cases hother with
      | fence htext' hfirst' =>
          have hcut := cut?_of_isUnbordered (by decide) hfirst rest
          have hcut' := cut?_of_isUnbordered (by decide) hfirst' other
          rw [← htext] at hcut
          rw [← htext', hcut] at hcut'
          exact (Prod.mk.inj (Option.some.inj hcut')).2
      | keyword hbare =>
          rw [htext] at hbare
          exact absurd (List.infix_append' _ _ _) hbare
  | keyword hbare hfirst =>
      cases hother with
      | fence htext' =>
          rw [htext'] at hbare
          exact absurd (List.infix_append' _ _ _) hbare
      | keyword hbare' hfirst' =>
          rw [Option.some.inj (hfirst.symm.trans hfirst')]

theorem suffix (h : IsSignal text rest) : rest <:+ text := by
  cases h with
  | @fence before rest htext hfirst =>
      rw [htext, ← List.append_assoc]
      exact List.suffix_append _ _
  | keyword hbare hfirst hafter =>
      rw [← (Keyword.first?_split hfirst).2]
      exact List.suffix_append _ _

end IsSignal

namespace Signals

variable {chunks : List (List Char)} {code : List Char}

theorem concat (h : Signals chunks code) (chunk : List Char) :
    Signals (chunks ++ [chunk]) (code ++ chunk) := by
  cases h with
  | @found earlier later last rest hscanning hsignal =>
      have hnext : Signals (earlier ++ last :: (later ++ [chunk]))
          (rest ++ (later ++ [chunk]).flatten) := .found hscanning hsignal
      simpa using hnext

/-- The code is the end of the text. -/
theorem suffix (h : Signals chunks code) : code <:+ chunks.flatten := by
  cases h with
  | @found earlier later chunk rest hscanning hsignal =>
      obtain ⟨skipped, hskipped⟩ := lastWindow_suffix earlier.flatten
      obtain ⟨before, hbefore⟩ := hsignal.suffix
      refine ⟨skipped ++ before, ?_⟩
      calc
        skipped ++ before ++ (rest ++ later.flatten) =
            skipped ++ (before ++ rest) ++ later.flatten := by simp
        _ = (skipped ++ lastWindow earlier.flatten) ++ chunk ++
            later.flatten := by rw [hbefore, ← List.append_assoc]
        _ = (earlier ++ chunk :: later).flatten := by simp [hskipped]

end Signals

/-! ### Collected code -/

theorem mem_pendingMark {text : List Char} {c : Char}
    (h : c ∈ pendingMark text) : c = '`' := by
  rw [pendingMark, List.mem_reverse] at h
  simpa using List.mem_takeWhile_imp h

/-- A stream that starts to collect has taken in the line breaks that it
disregards. -/
theorem collects_lineBreaks {breaks : List Char}
    (h : ∀ c ∈ breaks, isLineBreak c = true) :
    Collects ⟨.inCode, [], []⟩ breaks := by
  refine ⟨rfl, Nat.zero_le 2, breaks, by simp, ?_, ?_⟩
  · exact (List.dropWhile_eq_nil_iff.mpr h).symm
  · intro start stretch heq hne more hmark
    obtain ⟨c, rest, rfl⟩ := List.exists_cons_of_ne_nil hne
    have hc : '`' = c := (List.cons_prefix_cons.mp hmark).1
    have hbreak := h c (by rw [heq]; simp)
    rw [← hc] at hbreak
    exact absurd hbreak (by decide)

theorem exists_eq_append_skipLineBreak (text : List Char) :
    ∃ breaks, text = breaks ++ skipLineBreak text ∧
      ∀ c ∈ breaks, isLineBreak c = true := by
  unfold skipLineBreak afterLineBreak?
  split
  next rest => exact ⟨['\n'], rfl, by simp [isLineBreak]⟩
  next rest => exact ⟨['\r', '\n'], rfl, by simp [isLineBreak]⟩
  next => exact ⟨[], rfl, by simp⟩

namespace Collects

variable {stream : Stream} {code : List Char}

theorem not_infix (h : Collects stream code) : ¬ Fence.mark <:+: code := by
  obtain ⟨given, -, -, hcut⟩ := h.cut?_eq []
  have hbuffer : cut? Fence.mark stream.buffer = none := by
    rw [cut?_eq_none_iff]
    intro hmark
    have hthree : 3 ≤ stream.buffer.length := hmark.length_le
    have := h.length_buffer_le
    omega
  rw [List.append_nil, List.append_nil, hbuffer] at hcut
  exact cut?_eq_none_iff.mp hcut

/-- Nothing is lost between the collected code and the backquotes that are held
back. -/
theorem collected_append_buffer (h : Collects stream code)
    (hticks : ∀ c ∈ stream.buffer, c = '`') :
    stream.collected ++ stream.buffer = code.dropWhile isLineBreak := by
  obtain ⟨given, hcode, hcollected, -⟩ := h.exists_given
  have hbuffer : stream.buffer.dropWhile isLineBreak = stream.buffer := by
    cases hfirst : stream.buffer with
    | nil => rfl
    | cons c rest =>
        have hc : c = '`' := hticks c (by rw [hfirst]; simp)
        rw [hc]
        rfl
  rw [hcode, List.dropWhile_append, hbuffer, hcollected]
  split
  next hempty => rw [List.isEmpty_iff.mp hempty, List.nil_append]
  next => rfl

end Collects

/-! ### One more chunk -/

/-- What is left of the chunks in the stream. -/
inductive HasRead (chunks : List (List Char)) : Stream → Prop
  | scanning : HasRead chunks (scanning chunks.flatten)
  | inCode {stream : Stream} {code : List Char} (hsignal : Signals chunks code)
      (hcollects : Collects stream code)
      (hticks : ∀ c ∈ stream.buffer, c = '`') : HasRead chunks stream
  | finished {stream : Stream} {code inner rest : List Char}
      (hsignal : Signals chunks code)
      (hcut : cut? Fence.mark code = some (inner, rest))
      (hphase : stream.phase = .finished)
      (hcollected : stream.collected = inner.dropWhile isLineBreak) :
      HasRead chunks stream

theorem Collects.hasRead {stream : Stream} {code chunk : List Char}
    {chunks : List (List Char)} (h : Collects stream code)
    (hsignal : Signals chunks (code ++ chunk)) :
    HasRead chunks
      (consumeCode { stream with buffer := stream.buffer ++ chunk }).1 := by
  cases hcut : cut? Fence.mark (stream.buffer ++ chunk) with
  | none =>
      refine .inCode hsignal (h.consumeCode_open hcut) ?_
      intro c hc
      simp only [consumeCode, hcut] at hc
      exact mem_pendingMark hc
  | some parts =>
      obtain ⟨given, -, hcollected, hwhole⟩ := h.cut?_eq chunk
      rw [hcut] at hwhole
      refine .finished hsignal hwhole ?_ ?_
      · simp only [consumeCode, hcut]
      · simp only [consumeCode, hcut]
        rw [hcollected, collect_dropWhile]

/-- Code starts behind the start signal, or behind a line break there. -/
theorem exists_isSignal {text code : List Char}
    (h : codeStart? text = some code) :
    ∃ breaks, IsSignal text (breaks ++ code) ∧
      ∀ c ∈ breaks, isLineBreak c = true := by
  unfold codeStart? at h
  cases hcut : cut? Fence.taggedMark text with
  | some parts =>
      rw [hcut] at h
      obtain ⟨breaks, hbreaks, hall⟩ := exists_eq_append_skipLineBreak parts.2
      rw [← Option.some.inj h]
      refine ⟨breaks, .fence ?_ (not_infix_of_cut?_eq_some (by decide) hcut), hall⟩
      rw [← hbreaks, ← List.append_assoc]
      exact eq_of_cut?_eq_some hcut
  | none =>
      rw [hcut] at h
      obtain ⟨occurrence, hfirst, hif⟩ := Option.bind_eq_some_iff.mp h
      split at hif
      next hafter =>
        rw [← Option.some.inj hif]
        exact ⟨[], .keyword (cut?_eq_none_iff.mp hcut) hfirst
          (by simpa using hafter), by simp⟩
      next => exact absurd hif (by simp)

/-- A chunk that completes the start signal is read like one that follows it. -/
theorem hasRead_of_codeStart {chunks : List (List Char)}
    {chunk code : List Char} (hscanning : (fed chunks).phase = .scanning)
    (hcode : codeStart? (lastWindow chunks.flatten ++ chunk) = some code) :
    HasRead (chunks ++ [chunk]) (consumeCode ⟨.inCode, code, []⟩).1 := by
  obtain ⟨breaks, hsignal, hall⟩ := exists_isSignal hcode
  have hsignals : Signals (chunks ++ [chunk]) (breaks ++ code ++ [].flatten) :=
    .found hscanning hsignal
  rw [List.flatten_nil, List.append_nil] at hsignals
  exact (collects_lineBreaks hall).hasRead hsignals

theorem HasRead.append {chunks : List (List Char)}
    (h : HasRead chunks (fed chunks)) (chunk : List Char) :
    HasRead (chunks ++ [chunk]) ((fed chunks).append chunk).1 := by
  generalize hfed : fed chunks = stream at h
  cases h with
  | scanning =>
      cases hstart : codeStart? (lastWindow chunks.flatten ++ chunk) with
      | none =>
          rw [append_scanning hstart]
          have hflatten : (chunks ++ [chunk]).flatten =
              chunks.flatten ++ chunk := by simp
          rw [← hflatten]
          exact .scanning
      | some code =>
          have happend : (Stream.scanning chunks.flatten).append chunk =
              consumeCode ⟨.inCode, code, []⟩ := by
            simp [Stream.append, Stream.scanning, hstart]
          rw [happend]
          exact hasRead_of_codeStart (by rw [hfed]; rfl) hstart
  | inCode hsignal hcollects hticks =>
      have happend : stream.append chunk =
          consumeCode { stream with buffer := stream.buffer ++ chunk } := by
        simp [Stream.append, hcollects.phase_eq]
      rw [happend]
      exact hcollects.hasRead (hsignal.concat chunk)
  | finished hsignal hcut hphase hcollected =>
      have happend : stream.append chunk = (stream, []) := by
        simp [Stream.append, hphase]
      rw [happend]
      exact .finished (hsignal.concat chunk) (cut?_append_right hcut chunk)
        hphase hcollected

theorem hasRead_fed (chunks : List (List Char)) :
    HasRead chunks (fed chunks) := by
  induction chunks using List.reverseRecOn with
  | nil =>
      rw [fed_nil, ← scanning_nil]
      exact .scanning
  | append_singleton chunks chunk ih =>
      rw [fed_concat]
      exact ih.append chunk

/-! ### One start signal -/

theorem fed_eq_scanning {chunks : List (List Char)}
    (h : (fed chunks).phase = .scanning) :
    fed chunks = Stream.scanning chunks.flatten := by
  have hread := hasRead_fed chunks
  generalize fed chunks = stream at h hread
  cases hread with
  | scanning => rfl
  | inCode _ hcollects =>
      exact absurd (h.symm.trans hcollects.phase_eq) (by simp)
  | finished _ _ hphase => exact absurd (h.symm.trans hphase) (by simp)

theorem phase_consumeCode_ne (stream : Stream) :
    (consumeCode stream).1.phase ≠ .scanning := by
  unfold consumeCode
  split <;> simp

namespace Signals

variable {chunks : List (List Char)} {code : List Char}

/-- Once the signal has been found, the stream does not scan any more. -/
theorem phase_ne_scanning (h : Signals chunks code) :
    (fed chunks).phase ≠ .scanning := by
  cases h with
  | @found earlier later chunk rest hscanning hsignal =>
      induction later using List.reverseRecOn with
      | nil =>
          obtain ⟨code, hcode⟩ := hsignal.exists_codeStart?
          have happend : (Stream.scanning earlier.flatten).append chunk =
              consumeCode ⟨.inCode, code, []⟩ := by
            simp [Stream.append, Stream.scanning, hcode]
          rw [fed_concat, fed_eq_scanning hscanning, happend]
          exact phase_consumeCode_ne _
      | append_singleton later last ih =>
          rw [← List.cons_append, ← List.append_assoc, fed_concat]
          intro hphase
          have hrank := (advances_append
            (fed (earlier ++ chunk :: later)) last).rank_le
          rw [hphase] at hrank
          cases hbefore : (fed (earlier ++ chunk :: later)).phase with
          | scanning => exact ih hbefore
          | inCode => rw [hbefore] at hrank; exact absurd hrank (by decide)
          | finished => rw [hbefore] at hrank; exact absurd hrank (by decide)

/-- There is only one start signal. -/
theorem unique (h : Signals chunks code) {other : List Char}
    (hother : Signals chunks other) : code = other := by
  generalize hchunks : chunks = same at hother
  cases h with
  | @found earlier later chunk rest hscanning hsignal =>
  cases hother with
  | @found earlier' later' chunk' rest' hscanning' hsignal' =>
      -- Neither of the two signals is found behind the other one.
      rcases List.append_eq_append_iff.mp hchunks with
        ⟨more, hmore, htail⟩ | ⟨more, hmore, htail⟩
      · cases more with
        | nil =>
            rw [List.append_nil] at hmore
            obtain ⟨rfl, rfl⟩ := List.cons.inj htail
            rw [hmore] at hsignal'
            rw [hsignal.unique hsignal']
        | cons next more =>
            obtain ⟨rfl, -⟩ := List.cons.inj htail
            rw [hmore] at hscanning'
            exact absurd hscanning' (found hscanning hsignal).phase_ne_scanning
      · cases more with
        | nil =>
            rw [List.append_nil] at hmore
            obtain ⟨rfl, rfl⟩ := List.cons.inj htail
            rw [hmore] at hsignal
            rw [hsignal.unique hsignal']
        | cons next more =>
            obtain ⟨rfl, -⟩ := List.cons.inj htail
            rw [hmore] at hscanning
            exact absurd hscanning (found hscanning' hsignal').phase_ne_scanning

end Signals

/-! ### Phase by phase -/

theorem run_finished {stream : Stream} (h : stream.phase = .finished)
    (calls : List Call) : stream.run calls = (stream, []) := by
  induction calls with
  | nil => rfl
  | cons call calls ih =>
      have hcall : stream.call call = (stream, []) := by
        cases call <;> simp [Stream.call, append, finish, h]
      rw [run, hcall]
      simp only [ih, List.append_nil]

theorem length_lastWindow (text : List Char) :
    (lastWindow text).length = min window text.length := by
  rw [lastWindow, List.length_drop]
  omega

/-- What a stream holds, phase by phase, once it has taken in the chunks. -/
theorem fed_states (chunks : List (List Char)) :
    ((fed chunks).phase = .scanning →
      (fed chunks).collected = [] ∧ (fed chunks).buffer <:+ chunks.flatten ∧
        (fed chunks).buffer.length = min window chunks.flatten.length) ∧
    ((fed chunks).phase = .inCode →
      (fed chunks).buffer.length ≤ 2 ∧ (∀ c ∈ (fed chunks).buffer, c = '`') ∧
        ¬ Fence.mark <:+: (fed chunks).collected ++ (fed chunks).buffer ∧
        (∃ code, Signals chunks code) ∧
        ∀ code, Signals chunks code → code <:+ chunks.flatten ∧
          (fed chunks).collected ++ (fed chunks).buffer =
            code.dropWhile isLineBreak) ∧
    ((fed chunks).phase = .finished →
      (∃ code, Signals chunks code) ∧
      (∀ code, Signals chunks code → code <:+ chunks.flatten ∧
        ∃ inner rest, cut? Fence.mark code = some (inner, rest) ∧
          (fed chunks).collected = inner.dropWhile isLineBreak) ∧
      ∀ calls, (fed chunks).run calls = (fed chunks, [])) := by
  have h := hasRead_fed chunks
  generalize fed chunks = stream at h
  cases h with
  | scanning =>
      have hscanning : (Stream.scanning chunks.flatten).phase = .scanning := rfl
      refine ⟨?_, ?_, ?_⟩
      · intro _
        have hbuffer : (Stream.scanning chunks.flatten).buffer =
            lastWindow chunks.flatten := by rw [Stream.scanning]
        rw [hbuffer]
        exact ⟨by rw [Stream.scanning], lastWindow_suffix chunks.flatten,
          length_lastWindow chunks.flatten⟩
      · intro hother
        exact absurd (hother.symm.trans hscanning) (by simp)
      · intro hother
        exact absurd (hother.symm.trans hscanning) (by simp)
  | @inCode _ code hsignal hcollects hticks =>
      refine ⟨?_, ?_, ?_⟩
      · intro hphase
        exact absurd (hphase.symm.trans hcollects.phase_eq) (by simp)
      · intro hphase
        have hwhole := hcollects.collected_append_buffer hticks
        refine ⟨hcollects.length_buffer_le, hticks, ?_, ⟨code, hsignal⟩, ?_⟩
        · rw [hwhole]
          exact fun hmark => hcollects.not_infix
            (hmark.trans (List.dropWhile_suffix isLineBreak).isInfix)
        · intro other hother
          rw [← hsignal.unique hother]
          exact ⟨hsignal.suffix, hwhole⟩
      · intro hphase
        exact absurd (hphase.symm.trans hcollects.phase_eq) (by simp)
  | @finished _ code inner rest hsignal hcut hphase hcollected =>
      refine ⟨?_, ?_, ?_⟩
      · intro hother
        exact absurd (hother.symm.trans hphase) (by simp)
      · intro hother
        exact absurd (hother.symm.trans hphase) (by simp)
      · intro _
        refine ⟨⟨code, hsignal⟩, ?_, run_finished hphase⟩
        intro other hother
        rw [← hsignal.unique hother]
        exact ⟨hsignal.suffix, inner, rest, hcut, hcollected⟩

end Flowchart.Stream
