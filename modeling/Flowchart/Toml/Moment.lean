/-!
# Dates and times in TOML

A moment is a date, a time of day, or both, and then possibly with the distance
from universal time.  Settings make no use of moments, so only their form is
judged.
-/

namespace Flowchart.Toml

/-- Reads a number of two digits in a range, and what follows. -/
def twoDigits? (least greatest : Nat) : List Char → Option (Nat × List Char)
  | a :: b :: rest =>
    let value := 10 * (a.toNat - 48) + (b.toNat - 48)
    if a.isDigit ∧ b.isDigit ∧ least ≤ value ∧ value ≤ greatest then
      some (value, rest)
    else none
  | _ => none

/-- What follows a mark. -/
def afterMark? (mark : Char) : List Char → Option (List Char)
  | [] => none
  | c :: rest => if c = mark then some rest else none

def isLeapYear (year : Nat) : Bool :=
  year % 4 == 0 && (year % 100 != 0 || year % 400 == 0)

def daysIn (year month : Nat) : Nat :=
  if month = 2 then if isLeapYear year then 29 else 28
  else if [4, 6, 9, 11].contains month then 30
  else 31

/-- What follows a date. -/
def afterDate? (text : List Char) : Option (List Char) := do
  let (century, rest) ← twoDigits? 0 99 text
  let (year, rest) ← twoDigits? 0 99 rest
  let (month, rest) ← twoDigits? 1 12 (← afterMark? '-' rest)
  let (_, rest) ←
    twoDigits? 1 (daysIn (100 * century + year) month) (← afterMark? '-' rest)
  return rest

/-- What follows the fraction of a second, if the text starts with one. -/
def afterFraction? : List Char → Option (List Char)
  | '.' :: c :: rest =>
    if c.isDigit then some (rest.dropWhile Char.isDigit) else none
  | '.' :: [] => none
  | rest => some rest

/-- What follows a time of day, which may leave out the seconds. -/
def afterTime? (text : List Char) : Option (List Char) := do
  let (_, rest) ← twoDigits? 0 23 text
  let (_, rest) ← twoDigits? 0 59 (← afterMark? ':' rest)
  match afterMark? ':' rest with
  | none => return rest
  | some rest =>
    let (_, rest) ← twoDigits? 0 60 rest
    afterFraction? rest

/-- The text is a distance from universal time, or empty. -/
def isOffset (text : List Char) : Bool :=
  match text with
  | [] => true
  | sign :: rest =>
    if sign = 'Z' ∨ sign = 'z' then rest.isEmpty
    else if sign = '+' ∨ sign = '-' then
      ((twoDigits? 0 23 rest).bind fun (_, rest) =>
        (afterMark? ':' rest).bind (twoDigits? 0 59)).any (·.2.isEmpty)
    else false

def isDate (text : List Char) : Bool :=
  afterDate? text == some []

/-- The text is a time of day, and possibly its distance from universal
time. -/
def isTimeWithOffset (text : List Char) : Bool :=
  (afterTime? text).any isOffset

/-- The text is a moment. -/
def isMoment (text : List Char) : Bool :=
  match afterDate? text with
  | some [] => true
  | some (mark :: time) =>
    (mark == 'T' || mark == 't' || mark == ' ') && isTimeWithOffset time
  | none => afterTime? text == some []

end Flowchart.Toml
