import Flowchart.Source.Keyword
import Flowchart.Text.Quote

/-!
# Sanitizing

Loosely written diagram text is brought into the form that the statement
grammar reads: labels and group titles with punctuation are put in quotes, and
of several diagrams only the first is kept.  Whatever does not have the form
that a rule looks for is left alone.
-/

namespace Flowchart.Sanitize

open Text

/-- The text holds punctuation that calls for quotes. -/
def needsQuotes (text : List Char) : Bool :=
  text.any fun c => ['(', ')', '"', '[', ']', ',', ':', ';'].contains c

/-- Characters of an id in front of a label. -/
def isIdChar (c : Char) : Bool :=
  isAlphanumeric c || c == '_' || c == '-'

/-- A label can open with this character; other openings belong to other
forms. -/
def opensLabel : List Char → Bool
  | [] => false
  | c :: _ => !(['"', '[', '(', '/', '\\'].contains c)

/-- Cuts the line at the bracket that closes as many brackets as are open. -/
def closing? : Nat → List Char → Option (List Char × List Char)
  | _, [] => none
  | depth, c :: rest =>
    if c = '\n' then none
    else if c = ']' ∧ depth = 0 then some ([], rest)
    else
      let inner :=
        if c = '[' then depth + 1 else if c = ']' then depth - 1 else depth
      (closing? inner rest).map fun (body, after) => (c :: body, after)

theorem closing?_length {depth : Nat} {text body after : List Char}
    (h : closing? depth text = some (body, after)) :
    after.length < text.length := by
  induction text generalizing depth body with
  | nil => simp [closing?] at h
  | cons c rest ih =>
    simp only [closing?] at h
    split at h
    · simp at h
    · split at h
      · simp at h
        simp [h.2]
      · obtain ⟨⟨inner, tail⟩, hinner, heq⟩ := Option.map_eq_some_iff.1 h
        obtain ⟨rfl, rfl⟩ := Prod.mk.inj heq
        exact Nat.lt_succ_of_lt (ih hinner)

/-- The label that starts behind an opening bracket and has to be quoted, and
what follows its closing bracket. -/
def bareLabel? (previous : Option Char) (rest : List Char) :
    Option (List Char × List Char) :=
  if previous.any isIdChar && opensLabel rest then
    (closing? 0 rest).filter fun (body, _) => needsQuotes body
  else none

/-- A label in brackets and quotes. -/
def quotedLabel (body : List Char) : List Char :=
  '[' :: '"' :: escape body ++ ['"', ']']

/-- Quotes the labels from a position on, given the quotes and the character
before it. -/
def quoteLabelsFrom (quote : Quote) (previous : Option Char)
    (text : List Char) : List Char :=
  match text with
  | [] => []
  | c :: rest =>
    if quote = .closed ∧ c = '[' then
      match h : bareLabel? previous rest with
      | some (body, after) =>
        have : after.length < rest.length := by
          simp only [bareLabel?] at h
          split at h
          · exact closing?_length (Option.eq_some_of_filter_eq_some h)
          · simp at h
        quotedLabel body ++ quoteLabelsFrom .closed (some ']') after
      | none => c :: quoteLabelsFrom .closed (some c) rest
    else c :: quoteLabelsFrom (quote.step c) (some c) rest
termination_by text.length

/-- Puts `id[label]` labels with punctuation in quotes. -/
def quoteLabels (text : List Char) : List Char :=
  quoteLabelsFrom .closed none text

/-- Splits off an annotation between bars at the end of the text: what stands
before it, and the annotation with its bars. -/
def annotation? (text : List Char) : Option (List Char × List Char) :=
  (beforeFinal? '|' text).bind fun inside =>
    (cutLast? '|' inside).map fun (before, note) =>
      (trimEnd before, '|' :: note ++ ['|'])

/-- Splits a line that opens a group into the part up to the title, and the
title. -/
def groupTitle? (line : List Char) : Option (List Char × List Char) :=
  let indent := line.takeWhile isWhiteSpace
  (after? "subgraph".toList (line.dropWhile isWhiteSpace)).bind fun rest =>
    let gap := rest.takeWhile isWhiteSpace
    if gap.isEmpty then none
    else
      some (indent ++ "subgraph".toList ++ gap,
        trimEnd (rest.dropWhile isWhiteSpace))

/-- The title is written without quotes and calls for them. -/
def isBareTitle (title : List Char) : Bool :=
  title.head? != some '"' && needsQuotes title

/-- Puts the title of a line that opens a group in quotes, if it calls for
them. -/
def quoteTitle (line : List Char) : List Char :=
  match groupTitle? (dropWhileEnd (· == '\r') line) with
  | none => line
  | some (start, name) =>
    if name.isEmpty || name.head? == some '"' || name.contains '[' then line
    else
      match annotation? name with
      | some (title, note) =>
        if isBareTitle title then
          start ++ '"' :: escape title ++ '"' :: ' ' :: note
        else line
      | none =>
        if isBareTitle name then start ++ '"' :: escape name ++ ['"'] else line

/-- Puts group titles with punctuation in quotes. -/
def quoteTitles (text : List Char) : List Char :=
  ['\n'].intercalate ((lines text).map quoteTitle)

/-- Keeps the text from the first diagram keyword up to the second one, if
there are two. -/
def firstDiagram (text : List Char) : List Char :=
  match Keyword.occurrences text with
  | first :: second :: _ => second.before.drop first.before.length
  | _ => text

/-- Brings diagram text into the form that the statement grammar reads. -/
def sanitize (text : List Char) : List Char :=
  trim (firstDiagram (quoteTitles (quoteLabels (trim text))))

end Flowchart.Sanitize
