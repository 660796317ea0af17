import RestArchive.Number.Binary64

/-! # Decimal text of doubles

A double is written with the fewest digits that read back as it, and with the nearest such digits. What
is left to a format (where positional notation ends, whether a whole number keeps a point, which way a
tie goes) is one record, `NumeralStyle`. -/

namespace RestArchive

/-- A decimal number `digits * 10 ^ exponent`. -/
structure Decimal where
  /-- The significant digits. -/
  digits : Nat
  /-- The power of ten they count. -/
  exponent : Int
  deriving DecidableEq, Repr

/-- Which of two equally near decimals is taken. -/
inductive Tie where
  /-- The one whose last digit is even. -/
  | toEven
  /-- The greater one. -/
  | up
  deriving DecidableEq, Repr

/-- The decimal digits of a natural number. -/
def decimalDigits (n : Nat) : List Char := Nat.toDigits 10 n

/-- How many decimal digits a natural number has. -/
def decimalLength (n : Nat) : Nat := (decimalDigits n).length

namespace Decimal

/-- The same number without trailing zero digits. -/
def trimmed (d : Decimal) : Decimal :=
  if h : d.digits ≠ 0 ∧ d.digits % 10 = 0 then
    trimmed ⟨d.digits / 10, d.exponent + 1⟩
  else d
termination_by d.digits
decreasing_by omega

/-- The exponent of the leading digit of `numerator / denominator`. -/
def leadingExponent (numerator denominator : Nat) : Int :=
  if denominator ≤ numerator then (decimalLength (numerator / denominator) : Int) - 1
  else -(decimalLength ((denominator - 1) / numerator) : Int)

end Decimal

namespace Binary64

/-- The decimal on the grid of `10 ^ exponent` that reads back as the positive finite double `x`, if
there is one; the nearer of two. Only the two grid points next to the value can be the nearest. The
reals that round to `x` reach half way to its neighbours, ends included when the significand is even; the
gap below a power of two is half as wide. -/
def onGrid? (tie : Tie) (x : Binary64) (exponent : Int) : Option Decimal :=
  let quarters := 4 * x.significand
  let below := if x.fraction = 0 ∧ 1 < x.exponentField then 1 else 2
  let power : Int := (x.shift : Int) - 1074 - 2
  let gridUnit := Nat.pow 10 exponent.toNat * Nat.pow 2 (-power).toNat
  let quarterUnit := Nat.pow 10 (-exponent).toNat * Nat.pow 2 power.toNat
  let lowest := (quarters - below) * quarterUnit
  let value := quarters * quarterUnit
  let highest := (quarters + 2) * quarterUnit
  let readsBack (digits : Nat) : Bool :=
    if x.significand % 2 = 0 then lowest ≤ digits * gridUnit ∧ digits * gridUnit ≤ highest
    else lowest < digits * gridUnit ∧ digits * gridUnit < highest
  let floor := value / gridUnit
  match decide (floor ≠ 0) && readsBack floor, readsBack (floor + 1) with
  | false, false => none
  | true, false => some ⟨floor, exponent⟩
  | false, true => some ⟨floor + 1, exponent⟩
  | true, true =>
    let nearer :=
      match compare (value - floor * gridUnit) ((floor + 1) * gridUnit - value), tie with
      | .lt, _ => floor
      | .gt, _ => floor + 1
      | .eq, .toEven => floor + floor % 2
      | .eq, .up => floor + 1
    some ⟨nearer, exponent⟩

/-- The shortest decimal that reads back as the positive finite double `x`, and of those the nearest.
Seventeen digits are always enough. -/
def shortest (tie : Tie) (x : Binary64) : Decimal :=
  let magnitude := x.significand * Nat.pow 2 x.shift
  let leading := Decimal.leadingExponent magnitude (Nat.pow 2 1074)
  let grids := (List.range 17).map fun (behind : Nat) => leading - behind
  match grids.findSome? (onGrid? tie x) with
  | some decimal => decimal.trimmed
  | none => ⟨magnitude * Nat.pow 5 1074, -1074⟩

end Binary64

/-- What a format decides about the text of a double. -/
structure NumeralStyle where
  /-- Whether a number whose leading digit has this exponent is written positionally. -/
  positional : Int → Bool
  /-- Whether a whole number written positionally ends in `.0`. -/
  pointZero : Bool
  /-- Which of two equally near shortest decimals is taken. -/
  tie : Tie

namespace NumeralStyle

/-- A decimal in positional notation. -/
def positionalText (style : NumeralStyle) (d : Decimal) : List Char :=
  let digits := decimalDigits d.digits
  let point : Int := digits.length + d.exponent
  if 0 ≤ d.exponent then
    digits ++ List.replicate d.exponent.toNat '0' ++ (if style.pointZero then ['.', '0'] else [])
  else if 0 < point then
    digits.take point.toNat ++ '.' :: digits.drop point.toNat
  else
    '0' :: '.' :: List.replicate (-point).toNat '0' ++ digits

/-- A decimal with one digit before the point and an exponent, which always has its sign. -/
def scientificText (d : Decimal) : List Char :=
  let digits := decimalDigits d.digits
  let exponent : Int := digits.length + d.exponent - 1
  let lead :=
    match digits with
    | [] => []
    | [digit] => [digit]
    | digit :: others => digit :: '.' :: others
  lead ++ 'e' :: (if exponent < 0 then '-' else '+') :: decimalDigits exponent.natAbs

/-- The text of a finite double. -/
def text (style : NumeralStyle) (x : Binary64) : String :=
  let sign := if x.isNegative then ['-'] else []
  let magnitude :=
    if x.isZero then if style.pointZero then ['0', '.', '0'] else ['0']
    else
      let decimal := x.shortest style.tie
      if style.positional (decimalLength decimal.digits + decimal.exponent - 1) then
        style.positionalText decimal
      else scientificText decimal
  String.ofList (sign ++ magnitude)

end NumeralStyle

end RestArchive
