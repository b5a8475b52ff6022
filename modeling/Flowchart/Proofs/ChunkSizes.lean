import Flowchart.Command.Args
import Flowchart.Proofs.ChunkBoundaries

/-!
# Sizes of chunks on the command line

The size of a chunk is checked when its word is taken, and never again.  No word
changes it afterwards, so a size that comes of a command line is one with which
feeding the input to the stream comes to an end.
-/

namespace Flowchart.Command.Args

/-- The sizes that are accepted. -/
def IsChunkSize (size : ℕ) : Prop :=
  1 ≤ size ∧ size ≤ 4294967295

theorem isChunkSize_of_chunkSize? {value : String} {size : ℕ}
    (h : chunkSize? value = some size) : IsChunkSize size := by
  simp only [chunkSize?, Option.ite_none_left_eq_some,
    Option.ite_none_right_eq_some, Option.some.injEq] at h
  obtain ⟨-, hsize, rfl⟩ := h
  exact hsize

namespace Progress

/-- If a size has been read, it is accepted. -/
def IsSound (progress : Progress) : Prop :=
  ∀ size, progress.streamChunk = some size → IsChunkSize size

theorem isSound_initial : IsSound {} :=
  fun _ h => nomatch h

namespace IsSound

variable {progress next : Progress}

theorem of_eq (h : progress.IsSound)
    (hsame : next.streamChunk = progress.streamChunk) : next.IsSound := by
  intro size hsize
  exact h size (hsame ▸ hsize)

theorem accept (h : progress.IsSound) {setting : Setting} {value : String}
    (haccept : progress.accept setting value = .ok next) : next.IsSound := by
  unfold Progress.accept at haccept
  split at haccept
  · cases haccept
  · cases setting with
    | streamChunk =>
        dsimp only at haccept
        split at haccept
        next size hsize =>
          cases haccept
          intro other hother
          exact Option.some.inj hother ▸ isChunkSize_of_chunkSize? hsize
        next => cases haccept
    | output =>
        cases haccept
        exact h.of_eq rfl
    | config =>
        cases haccept
        exact h.of_eq rfl
    | logLevel =>
        cases haccept
        exact h.of_eq rfl

theorem settle (h : progress.IsSound) (hsettle : progress.settle = .ok next) :
    next.IsSound := by
  unfold Progress.settle at hsettle
  split at hsettle
  · cases hsettle
    exact h
  · cases hsettle
  · have hpending : IsSound { progress with pending := none } := h.of_eq rfl
    exact hpending.accept hsettle

theorem raise (h : progress.IsSound) {flag : Flag}
    (hraise : progress.raise flag = .ok next) : next.IsSound := by
  obtain ⟨settled, hsettle, hflag⟩ := bind_eq_ok_iff.mp hraise
  have hsettled := h.settle hsettle
  cases flag with
  | help => cases hflag
  | version => cases hflag
  | extract =>
      dsimp only at hflag
      split at hflag
      · cases hflag
      · cases hflag
        exact hsettled.of_eq rfl

theorem set (h : progress.IsSound) {setting : Setting} {value : Option String}
    (hset : progress.set setting value = .ok next) : next.IsSound := by
  obtain ⟨settled, hsettle, hvalue⟩ := bind_eq_ok_iff.mp hset
  have hsettled := h.settle hsettle
  cases value with
  | some value => exact hsettled.accept hvalue
  | none =>
      cases hvalue
      exact hsettled.of_eq rfl

theorem position (h : progress.IsSound) {word : String}
    (hposition : progress.position word = .ok next) : next.IsSound := by
  unfold Progress.position at hposition
  split at hposition
  · cases hposition
  · obtain ⟨settled, hsettle, hinput⟩ := bind_eq_ok_iff.mp hposition
    cases hinput
    exact (h.settle hsettle).of_eq rfl

theorem long (h : progress.IsSound) {text : List Char}
    (hlong : progress.long text = .ok next) : next.IsSound := by
  unfold Progress.long at hlong
  dsimp only at hlong
  split at hlong
  · cases hlong
  · exact h.set hlong
  · exact h.raise hlong
  · cases hlong

theorem letters (h : progress.IsSound) {text : List Char}
    (hletters : progress.letters text = .ok next) : next.IsSound := by
  induction text generalizing progress with
  | nil =>
      cases hletters
      exact h
  | cons letter others ih =>
      unfold Progress.letters at hletters
      split at hletters
      · cases hletters
      · obtain ⟨raised, hraise, hothers⟩ := bind_eq_ok_iff.mp hletters
        exact ih (h.raise hraise) hothers
      · exact h.set hletters

theorem plain (h : progress.IsSound) {word : String}
    (hplain : progress.plain word = .ok next) : next.IsSound := by
  unfold Progress.plain at hplain
  split at hplain
  · cases hplain
    exact h.of_eq rfl
  · exact h.position hplain

theorem step (h : progress.IsSound) {word : String}
    (hstep : progress.step word = .ok next) : next.IsSound := by
  unfold Progress.step at hstep
  split at hstep
  · exact h.position hstep
  · split at hstep
    · cases hstep
      exact h.of_eq rfl
    · exact h.long hstep
    · exact h.plain hstep
    · exact h.letters hstep
    · exact h.plain hstep

theorem foldlM_step (h : progress.IsSound) {words : List String}
    (hwords : words.foldlM Progress.step progress = .ok next) :
    next.IsSound := by
  induction words generalizing progress with
  | nil =>
      cases hwords
      exact h
  | cons word words ih =>
      rw [List.foldlM_cons] at hwords
      obtain ⟨after, hstep, hrest⟩ := bind_eq_ok_iff.mp hwords
      exact ih (h.step hstep) hrest

end IsSound

end Progress

theorem isChunkSize_of_read {words : List String} {args : Args}
    (h : read words = .ok args) {size : ℕ}
    (hsize : args.streamChunk = some size) : IsChunkSize size := by
  obtain ⟨last, hwords, hfinish⟩ := bind_eq_ok_iff.mp h
  obtain ⟨settled, hsettle, hargs⟩ := bind_eq_ok_iff.mp hfinish
  have hsound := (Progress.isSound_initial.foldlM_step hwords).settle hsettle
  split at hargs
  · cases hargs
  · cases hargs
    exact hsound size hsize

/-- Whatever the command line says, its input is fed to the stream in a finite
number of chunks. -/
theorem exists_feeds_of_read {words : List String} {args : Args}
    (h : read words = .ok args) {size : ℕ}
    (hsize : args.streamChunk = some size) (content : List Char) :
    ∃ fed, Stream.Feeds size (Text.encode content) fed :=
  Stream.exists_feeds_iff.mpr (.inl (isChunkSize_of_read h hsize).1)

end Flowchart.Command.Args
