import Flowchart.Scalar

/-!
# Geometry

Points, sizes, boxes and insets over any scalar.  The origin is the top left
corner, x grows to the right and y downward; the position of a box is its top
left corner.
-/

namespace Flowchart

structure Point (α : Type) where
  x : α
  y : α
  deriving DecidableEq, Repr

structure Size (α : Type) where
  width : α
  height : α
  deriving DecidableEq, Repr

/-- Space between the border of a group and its contents. -/
structure Insets (α : Type) where
  top : α
  right : α
  bottom : α
  left : α
  deriving DecidableEq, Repr

/-- An axis-aligned rectangle. -/
structure Bounds (α : Type) where
  minX : α
  minY : α
  maxX : α
  maxY : α
  deriving DecidableEq, Repr

variable {α : Type} [Scalar α]

namespace Point

def origin : Point α :=
  ⟨Scalar.zero, Scalar.zero⟩

def add (point offset : Point α) : Point α :=
  ⟨point.x + offset.x, point.y + offset.y⟩

omit [Scalar α] in
/-- Exchanges the axes. -/
def transpose (point : Point α) : Point α :=
  ⟨point.y, point.x⟩

def isFinite (point : Point α) : Bool :=
  Scalar.isFinite point.x && Scalar.isFinite point.y

end Point

namespace Insets

/-- The same padding on every side and a header band above the contents. -/
def withHeader (padding header : α) : Insets α :=
  ⟨padding + header, padding, padding, padding⟩

omit [Scalar α] in
/-- Where the contents start. -/
def contentOrigin (insets : Insets α) : Point α :=
  ⟨insets.left, insets.top⟩

def horizontal (insets : Insets α) : α :=
  insets.left + insets.right

def vertical (insets : Insets α) : α :=
  insets.top + insets.bottom

end Insets

namespace Size

def zero : Size α :=
  ⟨Scalar.zero, Scalar.zero⟩

/-- The larger width and the larger height. -/
def max (first second : Size α) : Size α :=
  ⟨Scalar.larger first.width second.width,
   Scalar.larger first.height second.height⟩

/-- Grows the size by the insets. -/
def pad (size : Size α) (insets : Insets α) : Size α :=
  ⟨size.width + insets.horizontal, size.height + insets.vertical⟩

def scale (size : Size α) (factor : α) : Size α :=
  ⟨size.width * factor, size.height * factor⟩

omit [Scalar α] in
/-- Exchanges the axes. -/
def transpose (size : Size α) : Size α :=
  ⟨size.height, size.width⟩

def isFinite (size : Size α) : Bool :=
  Scalar.isFinite size.width && Scalar.isFinite size.height

end Size

namespace Bounds

/-- The box of the given size at the given top left corner. -/
def ofTopLeft (corner : Point α) (size : Size α) : Bounds α where
  minX := corner.x
  minY := corner.y
  maxX := corner.x + size.width
  maxY := corner.y + size.height

/-- The boxes share a positive area; touching is not enough. -/
def intersects (first second : Bounds α) : Bool :=
  Scalar.less first.minX second.maxX && Scalar.less second.minX first.maxX &&
    Scalar.less first.minY second.maxY && Scalar.less second.minY first.maxY

end Bounds

end Flowchart
