/-!
# Spans

Half-open ranges of byte offsets into a source text.  A span never ends before
it starts: `Span.ofBounds` raises an end that lies too low.
-/

namespace Flowchart

/-- The bytes from `start` up to, but not including, `stop`. -/
structure Span where
  start : Nat
  stop : Nat
  start_le_stop : start ≤ stop := by omega
  deriving DecidableEq, Repr

namespace Span

/-- The span between two offsets; an end below the start is raised to it. -/
def ofBounds (start stop : Nat) : Span where
  start := start
  stop := max start stop

/-- The span of `length` bytes from an offset on. -/
def ofLength (start length : Nat) : Span where
  start := start
  stop := start + length

def length (span : Span) : Nat :=
  span.stop - span.start

def isEmpty (span : Span) : Bool :=
  span.start == span.stop

/-- The smallest span that covers both. -/
def union (first second : Span) : Span where
  start := min first.start second.start
  stop := max first.stop second.stop
  start_le_stop := by
    have := first.start_le_stop
    omega

@[simp] theorem length_ofLength (start length : Nat) :
    (ofLength start length).length = length := by
  simp [Span.length, ofLength]

end Span

end Flowchart
