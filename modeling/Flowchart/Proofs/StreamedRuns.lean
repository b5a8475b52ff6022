import Flowchart.Command.Run
import Flowchart.Proofs.LeadingKeywords
import Flowchart.Proofs.Outcome
import Flowchart.Proofs.Streaming

/-!
# Runs through the stream

A run that feeds its input through the stream looks for the diagram twice, in
the input and then in what the stream has found there.  The second time there
is no fence any more, so that the text from the first keyword on is taken: if
something else comes first in the block, the stream loses it.
-/

namespace Flowchart

open Text

/-! ### Text without fences -/

namespace Fence

theorem taggedBody?_of_not_infix {text : List Char} (h : ¬ mark <:+: text) :
    taggedBody? text = none := by
  induction text with
  | nil => rfl
  | cons c below ih =>
      have hafter : after? taggedMark (c :: below) = none := by
        rw [after?_eq_none_iff]
        intro hprefix
        have hmark : mark <+: taggedMark := by decide
        exact h (hmark.trans hprefix).isInfix
      have hblock : taggedBlock? (c :: below) = none := by
        rw [taggedBlock?, hafter]
        rfl
      rw [taggedBody?, hblock]
      exact ih fun hinside => h (List.infix_cons hinside)

theorem bodies_of_not_infix {text : List Char} (h : ¬ mark <:+: text) :
    bodies text = [] := by
  induction text with
  | nil => rw [bodies]
  | cons c below ih =>
      have hafter : after? mark (c :: below) = none := by
        rw [after?_eq_none_iff]
        exact fun hprefix => h hprefix.isInfix
      have hblock : block? (c :: below) = none := by
        rw [block?, hafter]
        rfl
      rw [bodies, hblock]
      exact ih fun hinside => h (List.infix_cons hinside)

theorem extract_of_unfenced {text : List Char} (h : ¬ mark <:+: text) :
    extract text =
      match Keyword.first? text with
      | some occurrence => trim occurrence.onwards
      | none => trim text := by
  rw [extract, taggedBody?_of_not_infix h, bodies_of_not_infix h,
    List.find?_nil]
  cases hfirst : Keyword.first? text with
  | none => rfl
  | some occurrence =>
      have honwards : ¬ mark <:+: occurrence.onwards := by
        intro hinside
        apply h
        rw [← (Keyword.first?_split hfirst).2]
        exact List.infix_append_of_infix_right hinside
      simp only [upToMark, cut?_eq_none_iff.mpr honwards]

end Fence

/-! ### Chunks of a text -/

namespace Stream

theorem takeBytes_append (size : ℕ) (text : List Char) :
    (takeBytes size text).1 ++ (takeBytes size text).2 = text := by
  induction text generalizing size with
  | nil => rfl
  | cons c text ih =>
      rw [takeBytes]
      split
      · rfl
      · exact congrArg (c :: ·) (ih _)

theorem flatten_chunks (size : ℕ) (text : List Char) :
    (chunks size text).flatten = text := by
  fun_induction chunks size text with
  | case1 => rfl
  | case2 c rest _ ih =>
      rw [List.flatten_cons, ih, List.cons_append, takeBytes_append]

theorem extract_of_completed {size : ℕ} {content code : List Char}
    (h : completed {} (chunks size content) = [code]) :
    extract size content = code := by
  have hfirst : ∀ events, doneCode? events = (doneCodes events).head? := by
    intro events
    rw [doneCodes, List.head?_filterMap, doneCode?]
    congr 1
    funext event
    cases event <;> rfl
  rw [extract, hfirst]
  change ((completed {} (chunks size content)).head?).getD [] = code
  rw [h]
  rfl

end Stream

/-! ### What comes before the first keyword -/

namespace Keyword

/-- Nothing stands before the first keyword, if there is one. -/
def Leads (text : List Char) : Prop :=
  ∀ occurrence, first? text = some occurrence → occurrence.before = []

instance (text : List Char) : Decidable (Leads text) :=
  match h : first? text with
  | none => .isTrue fun _ heq => nomatch h.symm.trans heq
  | some occurrence =>
    decidable_of_iff (occurrence.before = [])
      ⟨fun hempty _ heq => Option.some.inj (h.symm.trans heq) ▸ hempty,
        fun hleads => hleads occurrence h⟩

/-- If something stands before the first keyword of trimmed text, there is a
line above it that opens no diagram. -/
theorem opensFirst_eq_false {text : List Char} (htrimmed : IsTrimmed text)
    (h : ¬ Leads text) : opensFirst text = false := by
  rw [Bool.eq_false_iff]
  intro hopens
  obtain ⟨occurrence, hfirst, hbefore⟩ :=
    first?_of_opensFirst htrimmed.head hopens
  apply h
  intro other hother
  rwa [← Option.some.inj (hfirst.symm.trans hother)]

end Keyword

/-! ### Extracting twice -/

open Keyword Sanitize

/-- Extracting changes nothing if the text starts with its first keyword. -/
theorem Fence.extract_of_leads {text : List Char} (h : ¬ mark <:+: text)
    (htrimmed : IsTrimmed text) (hleads : Leads text) : extract text = text := by
  rw [extract_of_unfenced h]
  cases hfirst : first? text with
  | none => exact htrimmed.trim_eq
  | some occurrence =>
      have hsplit := (first?_split hfirst).2
      rw [hleads occurrence hfirst, List.nil_append] at hsplit
      simp only [hsplit, htrimmed.trim_eq]

/-- The only diagram of a text loses what stands before it. -/
theorem sanitize_extract_ne {text : List Char} (h : ¬ Fence.mark <:+: text)
    (htrimmed : IsTrimmed text) (hone : (lines text).countP opensLine ≤ 1)
    (hleads : ¬ Leads text) :
    sanitize (Fence.extract text) ≠ sanitize text := by
  have hkept : opensFirst (sanitize text) = false := by
    rw [opensFirst_sanitize, firstDiagram_of_countP, opensFirst_quotedText,
      htrimmed.trim_eq, opensFirst_eq_false htrimmed hleads]
    rw [countP_opensLine_quotedText, htrimmed.trim_eq]
    exact hone
  obtain ⟨occurrence, hfirst⟩ : ∃ occurrence,
      first? text = some occurrence := by
    by_contra hnone
    exact hleads fun occurrence heq => absurd ⟨occurrence, heq⟩ hnone
  have hlost : opensFirst (sanitize (Fence.extract text)) = true := by
    rw [Fence.extract_of_unfenced h, hfirst]
    dsimp only
    apply opensFirst_sanitize_trim
    rw [opensFirst_trim_of_head (head_onwards hfirst), opensFirst_onwards hfirst]
  intro hsame
  rw [hsame, hkept] at hlost
  exact Bool.noConfusion hlost

namespace Command

variable {β : Type} [Scalar β] {engine : Layered.Engine Float32 β}

/-- Of its input, a run only sees the source that is prepared from it. -/
theorem run_congr {task other : Task} {input : String}
    (hextract : task.extract = other.extract)
    (h : prepare (task.content input.toList) =
      prepare (other.content input.toList)) (files : SettingsFiles) :
    run engine files (some input) task =
      run engine files (some input) other := by
  simp only [run, h, Task.output, hextract]

theorem source_of_run {files : SettingsFiles} {input : String} {task : Task}
    {summary : Summary}
    (h : run engine files (some input) task = .ok summary) :
    summary.source = prepare (task.content input.toList) := by
  obtain ⟨settings, -, hrest⟩ := bind_eq_ok_iff.mp h
  obtain ⟨output, -, hsummary⟩ := bind_eq_ok_iff.mp hrest
  cases hsummary
  rfl

theorem prepare_block {before code : List Char}
    (hbefore : ¬ Fence.taggedMark <:+: before)
    (hcode : ¬ Fence.mark <:+: code) (rest : List Char) :
    prepare (before ++ (Fence.taggedMark ++
      '\n' :: (code ++ '\n' :: (Fence.mark ++ rest)))) =
        sanitize (trim code) := by
  rw [prepare, Stream.extract_block hbefore hcode]

/-- What the stream finds is extracted once more. -/
theorem prepare_streamed_block {before code : List Char}
    (hkeyword : ∀ keyword ∈ Keyword.all, ¬ keyword <:+: before)
    (hbefore : ¬ Fence.taggedMark <:+: before)
    (hcode : ¬ Fence.mark <:+: code) (rest : List Char) (size : ℕ) :
    prepare (Stream.extract size (before ++ (Fence.taggedMark ++
      '\n' :: (code ++ '\n' :: (Fence.mark ++ rest))))) =
        sanitize (Fence.extract (trim code)) := by
  rw [prepare, Stream.extract_of_completed (Stream.completed_block hkeyword
    hbefore hcode (Stream.flatten_chunks size _))]

/-- An input with a diagram in a tagged block gives the same source, diagnostics
and graph through the stream, if the block has nothing before its first keyword.
If it has, and only one line of the block opens a diagram, the sources differ. -/
theorem run_streamed (engine : Layered.Engine Float32 β)
    {before code : List Char}
    (hkeyword : ∀ keyword ∈ Keyword.all, ¬ keyword <:+: before)
    (hbefore : ¬ Fence.taggedMark <:+: before)
    (hcode : ¬ Fence.mark <:+: code) (rest : List Char) (size : ℕ) :
    let input := some (String.ofList (before ++ (Fence.taggedMark ++
      '\n' :: (code ++ '\n' :: (Fence.mark ++ rest)))))
    (Leads (trim code) → ∀ files extract,
      run engine files input ⟨extract, some size⟩ =
        run engine files input ⟨extract, none⟩) ∧
    ((lines (trim code)).countP opensLine ≤ 1 → ¬ Leads (trim code) →
      ∀ files extract summary other,
        run engine files input ⟨extract, some size⟩ = .ok summary →
          run engine files input ⟨extract, none⟩ = .ok other →
            summary.source ≠ other.source) := by
  intro input
  have hwhole := prepare_block hbefore hcode rest
  have hstream := prepare_streamed_block hkeyword hbefore hcode rest size
  have htrimmed := isTrimmed_trim code
  have hopen := not_infix_trim hcode
  refine ⟨?_, ?_⟩
  · intro hleads files extract
    apply run_congr
    · rfl
    · simp only [Task.content, String.toList_ofList]
      rw [hstream, hwhole, Fence.extract_of_leads hopen htrimmed hleads]
  · intro hone hleads files extract summary other hsummary hother
    rw [source_of_run hsummary, source_of_run hother]
    simp only [Task.content, String.toList_ofList]
    rw [hstream, hwhole]
    exact sanitize_extract_ne hopen htrimmed hone hleads

/-- One block that starts with its keyword, and one that starts with a remark. -/
theorem run_streamed_two_blocks :
    let before := "Look:\n".toList
    let plain := "\ngraph TD\nA --> B".toList
    let remarked := "%% as planned\ngraph TD\nA --> B".toList
    let input (code : List Char) := some (String.ofList (before ++
      (Fence.taggedMark ++ '\n' :: (code ++ '\n' :: (Fence.mark ++ [])))))
    ((∀ keyword ∈ Keyword.all, ¬ keyword <:+: before) ∧
      ¬ Fence.taggedMark <:+: before ∧ ¬ Fence.mark <:+: plain ∧
      ¬ Fence.mark <:+: remarked ∧ Leads (trim plain) ∧
      (lines (trim remarked)).countP opensLine ≤ 1 ∧ ¬ Leads (trim remarked)) ∧
    run Layered.sugiyama {} (input plain) ⟨false, some 5⟩ =
      run Layered.sugiyama {} (input plain) ⟨false, none⟩ ∧
    ∃ summary other,
      run Layered.sugiyama {} (input remarked) ⟨true, some 5⟩ = .ok summary ∧
        run Layered.sugiyama {} (input remarked) ⟨true, none⟩ = .ok other ∧
        summary.source ≠ other.source := by
  intro before plain remarked input
  have hkeyword : ∀ keyword ∈ Keyword.all, ¬ keyword <:+: before := by decide
  have hbefore : ¬ Fence.taggedMark <:+: before := by decide
  have hplain : ¬ Fence.mark <:+: plain := by decide
  have hremarked : ¬ Fence.mark <:+: remarked := by decide
  have hleads : Leads (trim plain) := by decide +kernel
  have hone : (lines (trim remarked)).countP opensLine ≤ 1 := by decide +kernel
  have hbehind : ¬ Leads (trim remarked) := by decide +kernel
  have hsame := (run_streamed Layered.sugiyama hkeyword hbefore hplain [] 5).1
    hleads {} false
  have hdiffer := (run_streamed Layered.sugiyama hkeyword hbefore hremarked
    [] 5).2 hone hbehind {} true _ _ rfl rfl
  exact ⟨⟨hkeyword, hbefore, hplain, hremarked, hleads, hone, hbehind⟩, hsame,
    _, _, rfl, rfl, hdiffer⟩

/-- The front matter before the keyword is lost when the block is streamed. -/
theorem run_streamed_ne :
    ¬ ∀ (before code rest : List Char) (size : ℕ) (files : SettingsFiles)
        (extract : Bool),
      (∀ keyword ∈ Keyword.all, ¬ keyword <:+: before) →
        ¬ Fence.taggedMark <:+: before → ¬ Fence.mark <:+: code → 1 ≤ size →
          let input := some (String.ofList (before ++ (Fence.taggedMark ++
            '\n' :: (code ++ '\n' :: (Fence.mark ++ rest)))))
          run Layered.sugiyama files input ⟨extract, some size⟩ =
            run Layered.sugiyama files input ⟨extract, none⟩ := by
  intro h
  let before := "Look:\n".toList
  let code := "---\ntitle: T\n---\ngraph LR\nA --> B".toList
  have hkeyword : ∀ keyword ∈ Keyword.all, ¬ keyword <:+: before := by decide
  have hbefore : ¬ Fence.taggedMark <:+: before := by decide
  have hcode : ¬ Fence.mark <:+: code := by decide
  have hruns := h before code [] 7 {} true hkeyword hbefore hcode (by decide)
  let content := before ++ (Fence.taggedMark ++
    '\n' :: (code ++ '\n' :: (Fence.mark ++ [])))
  have hsource : prepare (Task.content ⟨true, some 7⟩
      (String.ofList content).toList) =
        prepare (Task.content ⟨true, none⟩ (String.ofList content).toList) :=
    Option.some.inj
      (congrArg (fun outcome => outcome.toOption.map Summary.source) hruns)
  simp only [Task.content, String.toList_ofList] at hsource
  rw [prepare_streamed_block hkeyword hbefore hcode,
    prepare_block hbefore hcode] at hsource
  exact sanitize_extract_ne (not_infix_trim hcode) (isTrimmed_trim code)
    (by decide +kernel) (by decide +kernel) hsource

end Command

end Flowchart
