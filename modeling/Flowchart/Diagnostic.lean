import Flowchart.Span

/-!
# Diagnostics

What a reader of a diagram has to say about its source.  Reading never fails,
so every complaint is a diagnostic: a severity, a message, and optionally a
code, the span it speaks of and a hint.  A `Report` is the form in which a
diagnostic is shown beside its source.
-/

namespace Flowchart

/-- Whether something was left out of the diagram. -/
inductive Severity where
  /-- Something was dropped. -/
  | warning
  /-- The diagram is unaffected. -/
  | note
  deriving DecidableEq, Repr

def Severity.isWarning (severity : Severity) : Bool :=
  severity == .warning

def Severity.name : Severity → String
  | .warning => "warning"
  | .note => "note"

/-- The kinds of complaints, by what they are about. -/
inductive Code where
  /-- A statement that is none of the known forms. -/
  | unrecognized
  /-- A styling or interaction statement, which has no effect. -/
  | unsupported
  /-- An `end` without an open group. -/
  | unmatchedEnd
  /-- A group that is still open at the end of the text. -/
  | unterminated
  /-- A group whose id was already taken. -/
  | idCollision
  /-- A second, different definition of a node. -/
  | redefinition
  deriving DecidableEq, Repr

def Code.name : Code → String
  | .unrecognized => "W100"
  | .unsupported => "W101"
  | .unmatchedEnd => "W200"
  | .unterminated => "W201"
  | .idCollision => "W202"
  | .redefinition => "N300"

def Code.description : Code → String
  | .unrecognized => "unrecognized statement"
  | .unsupported => "unsupported statement"
  | .unmatchedEnd => "unmatched end"
  | .unterminated => "unterminated group"
  | .idCollision => "group id collision"
  | .redefinition => "conflicting redefinition"

def Code.all : List Code :=
  [.unrecognized, .unsupported, .unmatchedEnd, .unterminated, .idCollision,
   .redefinition]

/-- The code of the given name. -/
def Code.ofName? (name : String) : Option Code :=
  Code.all.find? (·.name == name)

structure Diagnostic where
  severity : Severity
  message : String
  code : Option Code := none
  span : Option Span := none
  help : Option String := none
  deriving DecidableEq, Repr

/-- One line of text: severity, code in brackets, message. -/
def Diagnostic.render (diagnostic : Diagnostic) : String :=
  let code :=
    match diagnostic.code with
    | some code => "[" ++ code.name ++ "]"
    | none => ""
  diagnostic.severity.name ++ code ++ ": " ++ diagnostic.message

/-- How urgently a report is shown. -/
inductive Urgency where
  | warning
  | advice
  deriving DecidableEq, Repr

def Urgency.name : Urgency → String
  | .warning => "Warning"
  | .advice => "Advice"

/-- A marked stretch of the source. -/
structure Report.Label where
  offset : Nat
  length : Nat
  /-- The label marks the place that the report is about. -/
  isPrimary : Bool
  deriving DecidableEq, Repr

/-- A diagnostic as it is shown beside the source that it speaks of. -/
structure Report where
  message : String
  code : Option String
  urgency : Urgency
  help : Option String
  labels : Option (List Report.Label)
  source : String
  deriving DecidableEq, Repr

/-- Warnings are shown as such and notes as advice; the span becomes the one
primary label. -/
def Diagnostic.report (diagnostic : Diagnostic) (source : String) : Report where
  message := diagnostic.message
  code := diagnostic.code.map Code.name
  urgency :=
    match diagnostic.severity with
    | .warning => .warning
    | .note => .advice
  help := diagnostic.help
  labels := diagnostic.span.map fun span => [⟨span.start, span.length, true⟩]
  source := source

end Flowchart
