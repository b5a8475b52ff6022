import Flowchart.Proofs.Streaming
import Mathlib.Data.List.Chain

/-!
# What a stream reports

Whatever calls are made on a stream, it goes through its phases in one
direction, reports code that only grows, and ends with one report of the
complete code.  A call can do one of three things: report nothing, report that
the code has grown, or end the stream.
-/

namespace Flowchart.Stream

open Text

/-- How far a stream has come. -/
def Phase.rank : Phase → ℕ
  | .scanning => 0
  | .inCode => 1
  | .finished => 2

/-- The stream has not collected code before it has found any. -/
def IsFresh (stream : Stream) : Prop :=
  stream.phase = .scanning → stream.collected = []

/-- What a call on the first stream can lead to, and what it reports. -/
inductive Advances (stream next : Stream) : List Event → Prop
  | ignored (hphase : stream.phase = .finished) (hsame : next = stream) :
      Advances stream next []
  | quiet (hrank : stream.phase.rank ≤ next.phase.rank)
      (hopen : next.phase ≠ .finished)
      (hcollected : next.collected = stream.collected) :
      Advances stream next []
  | grown (hopen : stream.phase ≠ .finished) (hphase : next.phase = .inCode)
      (hgrows : stream.collected <+: next.collected)
      (hne : stream.collected ≠ next.collected) :
      Advances stream next [.grown next.collected]
  | done (hopen : stream.phase ≠ .finished) (hphase : next.phase = .finished)
      (hgrows : stream.collected <+: next.collected) :
      Advances stream next [.done (trim next.collected)]

theorem prefix_collect (collected code : List Char) :
    collected <+: collect collected code := by
  unfold collect
  split
  next hempty =>
    rw [List.isEmpty_iff.mp hempty]
    exact List.nil_prefix
  next => exact List.prefix_append _ _

/-- Code is taken in alike by a stream that collects already and by one that has
just found the start of the code. -/
theorem advances_consumeCode {stream : Stream} {buffer : List Char}
    (hopen : stream.phase ≠ .finished) :
    Advances stream (consumeCode ⟨.inCode, buffer, stream.collected⟩).1
      (consumeCode ⟨.inCode, buffer, stream.collected⟩).2 := by
  unfold consumeCode
  split
  next code rest hcut =>
    exact .done hopen rfl (prefix_collect stream.collected code)
  next hcut =>
    dsimp only
    split
    next hsame =>
      refine .quiet ?_ (by simp) (by simpa using hsame)
      cases hphase : stream.phase with
      | finished => exact absurd hphase hopen
      | scanning => exact Nat.zero_le _
      | inCode => exact Nat.le_refl _
    next hgrown =>
      refine .grown hopen rfl (prefix_collect _ _) ?_
      intro hsame
      exact hgrown (beq_iff_eq.mpr hsame.symm)

theorem advances_append (stream : Stream) (chunk : List Char) :
    Advances stream (stream.append chunk).1 (stream.append chunk).2 := by
  unfold append
  cases hphase : stream.phase with
  | finished => exact .ignored hphase rfl
  | inCode =>
      have hopen : stream.phase ≠ .finished := by simp [hphase]
      exact advances_consumeCode hopen
  | scanning =>
      dsimp only
      split
      next code hstart => exact advances_consumeCode (by simp [hphase])
      next =>
        refine .quiet ?_ (by simp) rfl
        rw [hphase]

theorem advances_finish {stream : Stream} (hfresh : stream.IsFresh) :
    Advances stream stream.finish.1 stream.finish.2 := by
  unfold finish
  cases hphase : stream.phase with
  | finished => exact .ignored hphase rfl
  | inCode => exact .done (by simp [hphase]) rfl (prefix_collect _ _)
  | scanning =>
      have hempty := hfresh hphase
      dsimp only
      split
      next occurrence hfirst =>
        refine .done (by simp [hphase]) rfl ?_
        rw [hempty]
        exact List.nil_prefix
      next => exact .done (by simp [hphase]) rfl (List.prefix_refl _)

theorem advances_call {stream : Stream} (hfresh : stream.IsFresh) (call : Call) :
    Advances stream (stream.call call).1 (stream.call call).2 := by
  cases call with
  | append chunk => exact advances_append stream chunk
  | finish => exact advances_finish hfresh

namespace Advances

variable {stream next : Stream} {events : List Event}

theorem rank_le (h : Advances stream next events) :
    stream.phase.rank ≤ next.phase.rank := by
  cases h with
  | ignored _ hsame => rw [hsame]
  | quiet hrank => exact hrank
  | grown hopen hphase =>
      rw [hphase]
      cases hstream : stream.phase with
      | finished => exact absurd hstream hopen
      | scanning => exact Nat.zero_le _
      | inCode => exact Nat.le_refl _
  | done _ hphase =>
      rw [hphase]
      cases stream.phase <;> decide

theorem isFresh (h : Advances stream next events) (hfresh : stream.IsFresh) :
    next.IsFresh := by
  intro hscanning
  cases h with
  | ignored _ hsame =>
      subst hsame
      exact hfresh hscanning
  | quiet hrank _ hcollected =>
      rw [hcollected]
      apply hfresh
      rw [hscanning] at hrank
      cases hphase : stream.phase with
      | scanning => rfl
      | inCode => exact absurd (hphase ▸ hrank) (by decide)
      | finished => exact absurd (hphase ▸ hrank) (by decide)
  | grown _ hphase => exact absurd (hscanning.symm.trans hphase) (by simp)
  | done _ hphase => exact absurd (hscanning.symm.trans hphase) (by simp)

end Advances

/-! ### Runs -/

theorem run_append (stream : Stream) (first second : List Call) :
    stream.run (first ++ second) =
      (((stream.run first).1.run second).1,
        (stream.run first).2 ++ ((stream.run first).1.run second).2) := by
  induction first generalizing stream with
  | nil => simp [run]
  | cons call first ih => simp [run, ih]

/-- A stream that has made the reports: texts that have grown, each one beyond
the one before it, and the complete code if it has ended. -/
structure Reports (stream : Stream) (grown : List (List Char))
    (events : List Event) : Prop where
  isFresh : stream.IsFresh
  events_eq : events = grown.map Event.grown ++
    if stream.isFinished then [.done (trim stream.collected)] else []
  isChain : grown.IsChain fun text next => text <+: next ∧ text ≠ next
  prefix_collected : ∀ text ∈ grown, text <+: stream.collected

theorem reports_initial : Reports {} [] [] :=
  ⟨fun _ => rfl, rfl, List.IsChain.nil, by simp⟩

theorem isFinished_eq_true_iff {stream : Stream} :
    stream.isFinished = true ↔ stream.phase = .finished := by
  simp [isFinished]

theorem Reports.advances {stream next : Stream} {grown : List (List Char)}
    {before events : List Event} (h : Reports stream grown before)
    (hadvances : Advances stream next events) :
    ∃ more, Reports next (grown ++ more) (before ++ events) := by
  have hfresh := hadvances.isFresh h.isFresh
  have hbefore : stream.phase ≠ .finished →
      before = grown.map Event.grown := by
    intro hopen
    rw [h.events_eq, if_neg (mt isFinished_eq_true_iff.mp hopen),
      List.append_nil]
  cases hadvances with
  | ignored hphase hsame =>
      subst hsame
      exact ⟨[], by simpa using h⟩
  | quiet hrank hopen hcollected =>
      have hstream : stream.phase ≠ .finished := by
        intro hphase
        rw [hphase] at hrank
        apply hopen
        cases hnext : next.phase with
        | finished => rfl
        | scanning => exact absurd (hnext ▸ hrank) (by decide)
        | inCode => exact absurd (hnext ▸ hrank) (by decide)
      refine ⟨[], hfresh, ?_, ?_, ?_⟩
      · rw [if_neg (mt isFinished_eq_true_iff.mp hopen), hbefore hstream]
        simp
      · simpa using h.isChain
      · rw [hcollected]
        simpa using h.prefix_collected
  | grown hopen hphase hgrows hne =>
      refine ⟨[next.collected], hfresh, ?_, ?_, ?_⟩
      · have hnext : ¬ next.isFinished = true := by
          rw [isFinished_eq_true_iff, hphase]
          decide
        rw [if_neg hnext, hbefore hopen]
        simp
      · rw [List.isChain_append]
        refine ⟨h.isChain, List.IsChain.singleton _, ?_⟩
        intro last hlast text htext
        obtain rfl : next.collected = text := by simpa using htext
        have hold := h.prefix_collected last (List.mem_of_getLast? hlast)
        refine ⟨hold.trans hgrows, ?_⟩
        -- The text before is within what had been collected, which has grown.
        rintro rfl
        exact hne (hgrows.eq_of_length
          (Nat.le_antisymm hgrows.length_le hold.length_le))
      · intro text htext
        rcases List.mem_append.mp htext with hold | hnew
        · exact (h.prefix_collected text hold).trans hgrows
        · rw [List.mem_singleton.mp hnew]
  | done hopen hphase hgrows =>
      refine ⟨[], hfresh, ?_, ?_, ?_⟩
      · rw [if_pos (isFinished_eq_true_iff.mpr hphase), hbefore hopen]
        simp
      · simpa using h.isChain
      · intro text htext
        rw [List.append_nil] at htext
        exact (h.prefix_collected text htext).trans hgrows

theorem Reports.run {stream : Stream} {grown : List (List Char)}
    {before : List Event} (h : Reports stream grown before)
    (calls : List Call) :
    ∃ more, Reports (stream.run calls).1 (grown ++ more)
      (before ++ (stream.run calls).2) := by
  induction calls generalizing stream grown before with
  | nil => exact ⟨[], by simpa [Stream.run] using h⟩
  | cons call calls ih =>
      obtain ⟨first, hfirst⟩ := h.advances (advances_call h.isFresh call)
      obtain ⟨rest, hrest⟩ := ih hfirst
      rw [List.append_assoc, List.append_assoc] at hrest
      exact ⟨first ++ rest, hrest⟩

theorem rank_le_run {stream : Stream} (hfresh : stream.IsFresh)
    (calls : List Call) :
    stream.phase.rank ≤ (stream.run calls).1.phase.rank := by
  induction calls generalizing stream with
  | nil => exact Nat.le_refl _
  | cons call calls ih =>
      have hadvances := advances_call hfresh call
      exact hadvances.rank_le.trans (ih (hadvances.isFresh hfresh))

theorem phase_eq_finished_of_rank {phase : Phase}
    (h : Phase.finished.rank ≤ phase.rank) : phase = .finished := by
  cases phase with
  | finished => rfl
  | scanning => exact absurd h (by decide)
  | inCode => exact absurd h (by decide)

theorem phase_finish (stream : Stream) :
    stream.finish.1.phase = .finished := by
  unfold finish
  cases hphase : stream.phase with
  | finished => exact hphase
  | inCode => rfl
  | scanning =>
      dsimp only
      split <;> rfl

theorem phase_run_of_finish_mem {stream : Stream} (hfresh : stream.IsFresh)
    {calls : List Call} (h : Call.finish ∈ calls) :
    (stream.run calls).1.phase = .finished := by
  induction calls generalizing stream with
  | nil => exact absurd h (by simp)
  | cons call calls ih =>
      have hadvances := advances_call hfresh call
      have hnext := hadvances.isFresh hfresh
      rcases List.mem_cons.mp h with rfl | hmem
      · apply phase_eq_finished_of_rank
        have hrank := rank_le_run hnext calls
        rwa [Stream.call, phase_finish] at hrank
      · exact ih hnext hmem

/-- The phases of a stream follow each other in one direction.  It reports texts
of which each is a proper beginning of the next one, and of the code in the end;
then, once at the most, this code trimmed; and then nothing.  If it is told to
finish, the last report is made. -/
theorem run_reports (calls : List Call) :
    (∀ first second, calls = first ++ second →
      (run {} first).1.phase.rank ≤ (run {} calls).1.phase.rank) ∧
    ∃ grown done : List (List Char),
      (run {} calls).2 = grown.map Event.grown ++ done.map Event.done ∧
        (grown.IsChain fun text next => text <+: next ∧ text ≠ next) ∧
        (∀ text ∈ grown, text <+: (run {} calls).1.collected) ∧
        done.length ≤ 1 ∧
        (Call.finish ∈ calls → done.length = 1) ∧
        ∀ text ∈ done, text = trim (run {} calls).1.collected := by
  have hfresh : IsFresh {} := reports_initial.isFresh
  constructor
  · rintro first second rfl
    obtain ⟨grown, hgrown⟩ := reports_initial.run first
    rw [run_append]
    exact rank_le_run hgrown.isFresh second
  · obtain ⟨grown, h⟩ := reports_initial.run calls
    rw [List.nil_append, List.nil_append] at h
    by_cases hfinished : (run {} calls).1.phase = .finished
    · refine ⟨grown, [trim (run {} calls).1.collected], ?_, h.isChain,
        h.prefix_collected, Nat.le_refl 1, fun _ => rfl, by simp⟩
      have hevents := h.events_eq
      rw [if_pos (isFinished_eq_true_iff.mpr hfinished)] at hevents
      exact hevents
    · refine ⟨grown, [], ?_, h.isChain, h.prefix_collected, Nat.zero_le 1, ?_,
        by simp⟩
      · have hevents := h.events_eq
        rw [if_neg (mt isFinished_eq_true_iff.mp hfinished)] at hevents
        exact hevents
      · intro hfinish
        exact absurd (phase_run_of_finish_mem hfresh hfinish) hfinished

end Flowchart.Stream
