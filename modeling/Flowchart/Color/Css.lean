import Flowchart.Text.Basic
import Flowchart.Color.Name

/-!
# The color grammar of CSS

Decides whether a text is a color: a hexadecimal color, a color name, or a
color function such as `rgb(10 20 30 / 50%)`.  Only the form is judged, so each
reader takes a text to what follows the piece that it reads, and gives up when
the piece is not there.
-/

namespace Flowchart.Color

open Text

def isHexDigit (c : Char) : Bool :=
  c.isDigit || (('a' ≤ c && c ≤ 'f') || ('A' ≤ c && c ≤ 'F'))

/-- The digits of a hexadecimal color: one or two for each of three or four
channels. -/
def isHex (digits : List Char) : Bool :=
  digits.all isHexDigit && [3, 4, 6, 8].contains digits.length

/-- Blanks of the color grammar. -/
def isSpace (c : Char) : Bool :=
  c == ' ' || c == '\t' || c == '\r' || c == '\n'

/-- What follows the comment that the text starts with, if it is closed. -/
def afterComment? (text : List Char) : Option (List Char) :=
  (after? ['/', '*'] text).bind fun inside =>
    (cut? ['*', '/'] inside).map Prod.snd

/-- Skips the characters of the class, and comments. -/
def skipAll (inClass : Char → Bool) (text : List Char) : List Char :=
  let rest := text.dropWhile inClass
  match afterComment? rest with
  | none => rest
  | some next =>
    if next.length < text.length then skipAll inClass next else next
termination_by text.length

/-- Skips blanks and comments. -/
def skipSpace (text : List Char) : List Char :=
  skipAll isSpace text

/-- Skips comments, but no blanks. -/
def skipComments (text : List Char) : List Char :=
  skipAll (fun _ => false) text

def isNameStart (c : Char) : Bool :=
  c.isAlpha || c == '_'

def isNamePart (c : Char) : Bool :=
  isNameStart c || c == '-' || c.isDigit

/-- Reads a name.  It may start with one hyphen, and does not start with a
digit. -/
def name? (text : List Char) : Option (List Char × List Char) :=
  match text with
  | '-' :: c :: rest =>
    if isNameStart c then
      some ('-' :: c :: rest.takeWhile isNamePart, rest.dropWhile isNamePart)
    else none
  | c :: rest =>
    if isNameStart c then
      some (c :: rest.takeWhile isNamePart, rest.dropWhile isNamePart)
    else none
  | [] => none

def afterSign : List Char → List Char
  | '+' :: rest => rest
  | '-' :: rest => rest
  | text => text

/-- What follows the fraction, if the text starts with a point and a digit. -/
def afterFraction? : List Char → Option (List Char)
  | '.' :: d :: rest => if d.isDigit then some (rest.dropWhile Char.isDigit) else none
  | _ => none

/-- What follows the exponent, if the text starts with one. -/
def afterExponent (text : List Char) : List Char :=
  match text with
  | e :: rest =>
    if e = 'e' ∨ e = 'E' then
      match afterSign rest with
      | d :: more => if d.isDigit then more.dropWhile Char.isDigit else text
      | [] => text
    else text
  | [] => []

/-- What follows the number that the text starts with. -/
def afterNumber? (text : List Char) : Option (List Char) :=
  let unsigned := afterSign text
  let whole := unsigned.dropWhile Char.isDigit
  match afterFraction? whole with
  | some rest => some (afterExponent rest)
  | none =>
    if whole.length < unsigned.length then some (afterExponent whole) else none

/-- An argument of a color function. -/
inductive Argument where
  | number
  | percentage
  | dimension (unit : List Char)
  | word (name : List Char)

def argument? (text : List Char) : Option (Argument × List Char) :=
  match afterNumber? text with
  | some ('%' :: rest) => some (.percentage, rest)
  | some rest =>
    match name? rest with
    | some (unit, more) => some (.dimension unit, more)
    | none => some (.number, rest)
  | none => (name? text).map fun (name, rest) => (.word name, rest)

/-- Upper and lower case do not differ in names. -/
def lowered (name : List Char) : String :=
  String.ofList (name.map Char.toLower)

/-- The parameters of the color functions. -/
inductive Parameter where
  /-- A number or a percentage. -/
  | channel
  /-- A hue, with or without a unit. -/
  | angle
  deriving DecidableEq

/-- The argument can stand for the parameter; `none` can stand for each. -/
def Parameter.accepts : Parameter → Argument → Bool
  | _, .number => true
  | .channel, .percentage => true
  | .angle, .percentage => false
  | .channel, .dimension _ => false
  | .angle, .dimension unit =>
    ["deg", "rad", "grad", "turn"].contains (lowered unit)
  | _, .word name => lowered name == "none"

/-- What follows an argument for the parameter. -/
def Parameter.after? (parameter : Parameter) (text : List Char) :
    Option (List Char) :=
  (argument? (skipSpace text)).bind fun (argument, rest) =>
    if parameter.accepts argument then some rest else none

/-- What follows the mark that the text starts with. -/
def behind? (mark : Char) : List Char → Option (List Char)
  | c :: rest => if c = mark then some rest else none
  | [] => none

/-- What follows the mark, and the blanks before it. -/
def afterMark? (mark : Char) (text : List Char) : Option (List Char) :=
  behind? mark (skipSpace text)

/-- Whether commas may separate the arguments of a color function. -/
inductive Commas where
  | never
  /-- The first comma follows its argument without a blank. -/
  | attached
  | free
  deriving DecidableEq

/-- What follows the comma behind the first argument, where there may be
one. -/
def Commas.afterFirst? : Commas → List Char → Option (List Char)
  | .never, _ => none
  | .attached, text => behind? ',' (skipComments text)
  | .free, text => afterMark? ',' text

/-- A color function: whether the name of a color space comes first, its
parameters, and whether commas may separate them. -/
structure Function where
  namesSpace : Bool
  parameters : Parameter × Parameter × Parameter
  commas : Commas

def function? (name : List Char) : Option Function :=
  match lowered name with
  | "rgb" => some ⟨false, (.channel, .channel, .channel), .free⟩
  | "rgba" => some ⟨false, (.channel, .channel, .channel), .free⟩
  | "hsl" => some ⟨false, (.angle, .channel, .channel), .attached⟩
  | "hsla" => some ⟨false, (.angle, .channel, .channel), .attached⟩
  | "hwb" => some ⟨false, (.angle, .channel, .channel), .never⟩
  | "lab" => some ⟨false, (.channel, .channel, .channel), .never⟩
  | "lch" => some ⟨false, (.channel, .channel, .angle), .never⟩
  | "oklab" => some ⟨false, (.channel, .channel, .channel), .never⟩
  | "oklch" => some ⟨false, (.channel, .channel, .angle), .never⟩
  | "color" => some ⟨true, (.channel, .channel, .channel), .never⟩
  | _ => none

/-- The color spaces that a color can be given in. -/
def spaces : List String :=
  ["srgb", "srgb-linear", "display-p3", "a98-rgb", "prophoto-rgb", "rec2020",
   "xyz", "xyz-d50", "xyz-d65"]

/-- What follows the name of a color space. -/
def afterSpace? (text : List Char) : Option (List Char) :=
  (name? (skipSpace text)).bind fun (name, rest) =>
    if spaces.contains (lowered name) then some rest else none

/-- What follows the closing parenthesis, and the opacity before it, which is
set off by the given mark. -/
def afterOpacity? (mark : Char) (text : List Char) : Option (List Char) :=
  match afterMark? mark text with
  | some rest => (Parameter.channel.after? rest).bind (afterMark? ')')
  | none => afterMark? ')' text

/-- What follows the arguments of the function.  A comma after the first
argument calls for commas throughout. -/
def Function.after? (function : Function) (text : List Char) :
    Option (List Char) :=
  let (first, second, third) := function.parameters
  let start := if function.namesSpace then afterSpace? text else some text
  (start.bind first.after?).bind fun rest =>
    match function.commas.afterFirst? rest with
    | some rest =>
      (second.after? rest).bind fun rest =>
        (afterMark? ',' rest).bind fun rest =>
          (third.after? rest).bind (afterOpacity? ',')
    | none =>
      (second.after? rest).bind fun rest =>
        (third.after? rest).bind (afterOpacity? '/')

/-- The text is a color, with nothing before or after it. -/
def isCssText (text : List Char) : Bool :=
  match text with
  | '#' :: digits => isHex digits
  | _ =>
    match name? text with
    | none => false
    | some (name, []) => names.contains (lowered name)
    | some (name, '(' :: arguments) =>
      match function? name with
      | some function => function.after? arguments == some []
      | none => false
    | some _ => false

end Flowchart.Color
