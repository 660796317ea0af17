import RestArchive.Number.Decimal

/-! # Decimal numbers of 128 bits

A decimal number of the archive is kept as its bits, in the encoding whose coefficient is a binary
integer. Nothing is computed with it: it is compared bit by bit, and written in messages. -/

namespace RestArchive

/-- A decimal number, by its bits. -/
structure Decimal128 where
  /-- The sign, the exponent and the upper bits of the coefficient. -/
  high : UInt64
  /-- The lower bits of the coefficient. -/
  low : UInt64
  deriving DecidableEq, Repr, Inhabited

namespace Decimal128

/-- Whether the sign bit is set. -/
def isNegative (x : Decimal128) : Bool := Nat.pow 2 63 ≤ x.high.toNat

/-- The five bits behind the sign, which tell what kind of number this is. -/
def combination (x : Decimal128) : Nat := x.high.toNat / Nat.pow 2 58 % 32

/-- Whether this is no number. -/
def isNaN (x : Decimal128) : Bool := x.combination = 31

/-- Whether the number is infinite. -/
def isInfinite (x : Decimal128) : Bool := x.combination = 30

/-- The coefficient. One of more than thirty-four digits counts as zero; with two bits set behind the
sign, it has more whatever its lower bits are. -/
def coefficient (x : Decimal128) : Nat :=
  let bits := x.high.toNat % Nat.pow 2 49 * Nat.pow 2 64 + x.low.toNat
  if x.combination < 24 ∧ bits < Nat.pow 10 34 then bits else 0

/-- The exponent, which stands two bits further down when two bits are set behind the sign. -/
def exponent (x : Decimal128) : Int :=
  let above := if x.combination < 24 then Nat.pow 2 49 else Nat.pow 2 47
  (x.high.toNat / above % Nat.pow 2 14 : Nat) - 6176

/-- Decimal numbers in messages: positional as long as few zeros stand behind the point. -/
def style : NumeralStyle where
  positional leading := -6 ≤ leading
  pointZero := false
  tie := .toEven

/-- The text of a finite magnitude. A positive exponent is always written, so that no digit is made up. -/
def magnitudeText (d : Decimal) : List Char :=
  if d.exponent ≤ 0 ∧ style.positional (decimalLength d.digits + d.exponent - 1) then
    style.positionalText d
  else (NumeralStyle.scientificText d).map Char.toUpper

/-- The text of a decimal number. -/
def text (x : Decimal128) : String :=
  let sign := if x.isNegative then "-" else ""
  if x.isNaN then "NaN"
  else if x.isInfinite then sign ++ "Infinity"
  else sign ++ String.ofList (magnitudeText ⟨x.coefficient, x.exponent⟩)

/-- A number with a fraction, and one whose exponent is written. -/
example : (⟨0x303C000000000000, 12345⟩ : Decimal128).text = "123.45" ∧
    (⟨0xB044000000000000, 12345⟩ : Decimal128).text = "-1.2345E+6" := by decide +kernel

end Decimal128

end RestArchive
