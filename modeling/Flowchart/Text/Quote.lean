import Flowchart.Text.Basic

/-!
# Double quotes

Whether a position of a text lies inside a double-quoted string.  A backslash
hides the character after it, but only inside a string.
-/

namespace Flowchart.Text

/-- Where a reader stands with respect to double-quoted strings. -/
inductive Quote where
  /-- Outside every string. -/
  | closed
  /-- Inside a string. -/
  | opened
  /-- Inside a string, behind a backslash. -/
  | escaped
  deriving DecidableEq, Repr

/-- The state after one more character. -/
def Quote.step : Quote → Char → Quote
  | .closed, c => if c = '"' then .opened else .closed
  | .opened, c =>
    if c = '\\' then .escaped else if c = '"' then .closed else .opened
  | .escaped, _ => .opened

/-- The state after a whole text. -/
def Quote.after (state : Quote) (text : List Char) : Quote :=
  text.foldl Quote.step state

@[simp] theorem Quote.after_nil (state : Quote) : state.after [] = state :=
  rfl

@[simp] theorem Quote.after_cons (state : Quote) (c : Char)
    (text : List Char) : state.after (c :: text) = (state.step c).after text :=
  rfl

@[simp] theorem Quote.after_append (state : Quote)
    (first second : List Char) :
    state.after (first ++ second) = (state.after first).after second := by
  simp [Quote.after]

/-- The text ends inside a double-quoted string. -/
def endsInQuotes (text : List Char) : Bool :=
  Quote.after .closed text != .closed

/-- Backslashes and quotes of a string are written behind a backslash. -/
def escape (text : List Char) : List Char :=
  text.flatMap fun c => if c = '\\' ∨ c = '"' then ['\\', c] else [c]

end Flowchart.Text
