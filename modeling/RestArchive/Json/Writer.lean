import RestArchive.Json
import RestArchive.Number.Decimal

/-! # Writing JSON

The compact text of a JSON value: no blanks, characters outside ASCII as they are, control characters
escaped. A double always shows a point or an exponent, so that it is told from an integer. -/

namespace RestArchive.Json

/-- Doubles in JSON text: positional with a point while the leading digit's exponent is from -5 up
to 15, with an exponent otherwise; a tie goes to the even digit. -/
def doubleStyle : NumeralStyle where
  positional exponent := -5 ≤ exponent && exponent < 16
  pointZero := true
  tie := .toEven

/-- A lowercase hexadecimal digit. -/
def hexDigitChar (value : Nat) : Char := Nat.digitChar value

/-- A character as it stands inside a quoted text. -/
def escaped (c : Char) : List Char :=
  if c = '"' then ['\\', '"']
  else if c = '\\' then ['\\', '\\']
  else if c = '\x08' then ['\\', 'b']
  else if c = '\x0c' then ['\\', 'f']
  else if c = '\n' then ['\\', 'n']
  else if c = '\r' then ['\\', 'r']
  else if c = '\t' then ['\\', 't']
  else if c.toNat < 32 then
    ['\\', 'u', '0', '0', hexDigitChar (c.toNat / 16), hexDigitChar (c.toNat % 16)]
  else [c]

/-- A text between quotes. -/
def quoted (text : String) : List Char := '"' :: (text.toList.flatMap escaped ++ ['"'])

mutual

/-- The compact text of a value, as characters. -/
def chars : Json → List Char
  | .null => "null".toList
  | .bool true => "true".toList
  | .bool false => "false".toList
  | .integer value => (toString value).toList
  | .double value => if value.isFinite then (doubleStyle.text value).toList else "null".toList
  | .string text => quoted text
  | .array items => '[' :: (itemChars true items ++ [']'])
  | .object members => '\x7b' :: (memberChars true members ++ ['\x7d'])
termination_by structural value => value

/-- The items of an array, a comma before each but the first. -/
def itemChars (first : Bool) : List Json → List Char
  | [] => []
  | item :: items => (if first then [] else [',']) ++ chars item ++ itemChars false items
termination_by structural items => items

/-- The members of an object, a comma before each but the first. -/
def memberChars (first : Bool) : List (String × Json) → List Char
  | [] => []
  | (name, value) :: members =>
    (if first then [] else [',']) ++ quoted name ++ ':' :: chars value ++ memberChars false members
termination_by structural members => members

end

/-- The compact text of a value. -/
def text (value : Json) : String := String.ofList value.chars

end RestArchive.Json
