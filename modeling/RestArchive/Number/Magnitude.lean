import RestArchive.Number.Binary64

/-! # Numbers as filters compare them

Filters compare integers and doubles with one another. An integer is compared as the double nearest to
it, so the common scale is that of doubles: a whole number of units of `2 ^ -1074`, an infinity, or
no number at all. -/

namespace RestArchive

/-- A number on the scale of doubles. -/
inductive Magnitude where
  /-- Not a number; it compares with nothing, itself included. -/
  | nan
  /-- Below every finite number. -/
  | negativeInfinity
  /-- So many units of `2 ^ -1074`. -/
  | finite (units : Int)
  /-- Above every finite number. -/
  | positiveInfinity
  deriving DecidableEq, Repr

/-- The number that a double denotes. Both zeros denote the same. -/
def Binary64.magnitude (x : Binary64) : Magnitude :=
  if x.isFinite then .finite x.units
  else if x.isNaN then .nan
  else if x.isNegative then .negativeInfinity
  else .positiveInfinity

namespace Magnitude

/-- The number that an integer is compared as. -/
def ofInt (n : Int) : Magnitude := (Binary64.ofInt n).magnitude

/-- How two numbers compare, unless one is no number. -/
def compare? : Magnitude → Magnitude → Option Ordering
  | .nan, _ => none
  | _, .nan => none
  | .negativeInfinity, .negativeInfinity => some .eq
  | .negativeInfinity, _ => some .lt
  | _, .negativeInfinity => some .gt
  | .positiveInfinity, .positiveInfinity => some .eq
  | .positiveInfinity, _ => some .gt
  | _, .positiveInfinity => some .lt
  | .finite a, .finite b => some (compare a b)

/-- Whether two numbers are the same; a NaN differs from itself. -/
def same (a b : Magnitude) : Bool := compare? a b = some .eq

end Magnitude

/-- Whether two doubles are the same number: both zeros are, and a NaN differs from itself. -/
def Binary64.same (x y : Binary64) : Bool := x.magnitude.same y.magnitude

end RestArchive
