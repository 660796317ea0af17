import RestArchive.Number.Decimal

/-! # Reading numerals

The numerals of JSON text. One without point and exponent is an integer when it fits in 64 bits, with
or without sign; every other numeral, `-0` included, is the nearest double. A numeral whose nearest
double would be infinite is refused. -/

namespace RestArchive

/-- What a numeral denotes. -/
inductive Numeral where
  /-- An integer from `-2 ^ 63` up to `2 ^ 64 - 1`. -/
  | integer (value : Int)
  /-- A double. -/
  | double (value : Binary64)
  deriving DecidableEq, Repr

/-- Whether a character is one of the ten decimal digits. -/
def isDecimalDigit (c : Char) : Bool := '0' ≤ c ∧ c ≤ '9'

/-- The number that a run of decimal digits writes. -/
def decimalValue (digits : List Char) : Nat :=
  digits.foldl (fun value c => 10 * value + (c.toNat - '0'.toNat)) 0

namespace Numeral

/-- The parts of a numeral. -/
structure Parts where
  /-- Whether a minus sign stands in front. -/
  negative : Bool
  /-- The digits before the point. -/
  whole : List Char
  /-- The digits behind the point, if there is one. -/
  fraction : Option (List Char)
  /-- The sign and the digits of the exponent, if there is one. -/
  exponent : Option (Bool × List Char)

/-- Whether a run of digits may stand before the point: it is not empty and has no leading zero. -/
def isWhole : List Char → Bool
  | [] => false
  | ['0'] => true
  | digit :: rest => digit ≠ '0' && (digit :: rest).all isDecimalDigit

/-- The exponent of a numeral from the text behind its digits. -/
def exponentOf? : List Char → Option (Option (Bool × List Char))
  | [] => some none
  | mark :: rest =>
    let (negative, digits) :=
      match rest with
      | '-' :: digits => (true, digits)
      | '+' :: digits => (false, digits)
      | digits => (false, digits)
    if (mark = 'e' ∨ mark = 'E') ∧ digits ≠ [] ∧ digits.all isDecimalDigit then
      some (some (negative, digits))
    else none

/-- The parts of a numeral, if the text is one. -/
def parts? (text : List Char) : Option Parts :=
  let (negative, unsigned) :=
    match text with
    | '-' :: rest => (true, rest)
    | rest => (false, rest)
  let whole := unsigned.takeWhile isDecimalDigit
  let behind := unsigned.dropWhile isDecimalDigit
  if !isWhole whole then none
  else
    match behind with
    | '.' :: rest =>
      let digits := rest.takeWhile isDecimalDigit
      if digits = [] then none
      else (exponentOf? (rest.dropWhile isDecimalDigit)).map fun exponent =>
        ⟨negative, whole, some digits, exponent⟩
    | rest => (exponentOf? rest).map fun exponent => ⟨negative, whole, none, exponent⟩

/-- The double nearest to `digits * 10 ^ exponent`, unless that is infinite. Where the leading digit
stands decides the cases far out, so that no great power of ten is computed. -/
def nearestDouble? (negative : Bool) (digits : Nat) (exponent : Int) : Option Binary64 :=
  let leading : Int := decimalLength digits + exponent
  if digits = 0 ∨ leading < -330 then some (Binary64.ofParts negative 0)
  else if 310 < leading then none
  else Binary64.ofRatio? negative (digits * Nat.pow 10 exponent.toNat)
    (Nat.pow 10 (-exponent).toNat)

/-- The number that the parts of a numeral denote. -/
def ofParts? (parts : Parts) : Option Numeral :=
  let fraction := parts.fraction.getD []
  let digits := decimalValue (parts.whole ++ fraction)
  let exponent : Int :=
    match parts.exponent with
    | none => 0
    | some (true, power) => -(decimalValue power : Int)
    | some (false, power) => decimalValue power
  let value : Int := if parts.negative then -(digits : Int) else digits
  let isInteger : Bool :=
    parts.fraction.isNone && parts.exponent.isNone && !(parts.negative && digits = 0)
      && decide (-0x8000000000000000 ≤ value) && decide (value < 0x10000000000000000)
  if isInteger then some (.integer value)
  else (nearestDouble? parts.negative digits (exponent - fraction.length)).map .double

/-- The number that a numeral denotes. -/
def ofText? (text : List Char) : Option Numeral := (parts? text).bind ofParts?

end Numeral

end RestArchive
