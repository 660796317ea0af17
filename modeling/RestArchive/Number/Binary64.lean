/-! # Double-precision numbers

A double is kept as its 64 bits, so that every rule about it is exact arithmetic on natural numbers.
A finite double is a whole number of *units* of `2 ^ -1074`, the least positive double. -/

namespace RestArchive

/-- A double-precision number, by its bits. -/
structure Binary64 where
  /-- Sign, eleven bits of exponent, fifty-two bits of fraction. -/
  bits : UInt64
  deriving DecidableEq, Repr, Inhabited

namespace Binary64

/-- The bits as a natural number. -/
def word (x : Binary64) : Nat := x.bits.toNat

/-- Whether the sign bit is set; it is for `-0.0`. -/
def isNegative (x : Binary64) : Bool := Nat.pow 2 63 ≤ x.word

/-- The bits below the sign. -/
def magnitudeBits (x : Binary64) : Nat := x.word % Nat.pow 2 63

/-- The exponent field. -/
def exponentField (x : Binary64) : Nat := x.magnitudeBits / Nat.pow 2 52

/-- The fraction field. -/
def fraction (x : Binary64) : Nat := x.magnitudeBits % Nat.pow 2 52

/-- Whether the number is neither infinite nor a NaN. -/
def isFinite (x : Binary64) : Bool := x.exponentField < 2047

/-- Whether this is no number. -/
def isNaN (x : Binary64) : Bool := x.exponentField = 2047 && x.fraction ≠ 0

/-- The significand: the fraction, with the leading one unless the number is subnormal. -/
def significand (x : Binary64) : Nat :=
  if x.exponentField = 0 then x.fraction else x.fraction + Nat.pow 2 52

/-- How far the significand is shifted: the magnitude is `significand * 2 ^ shift` units. -/
def shift (x : Binary64) : Nat := x.exponentField - 1

/-- The value of a finite double in units of `2 ^ -1074`. -/
def units (x : Binary64) : Int :=
  let magnitude : Nat := x.significand * Nat.pow 2 x.shift
  if x.isNegative then -(magnitude : Int) else magnitude

/-- Whether the number is `0.0` or `-0.0`. -/
def isZero (x : Binary64) : Bool := x.magnitudeBits = 0

/-- `numerator / denominator` rounded to a whole number, a half going to the even neighbour. -/
def roundHalfEven (numerator denominator : Nat) : Nat :=
  let quotient := numerator / denominator
  match compare (2 * (numerator % denominator)) denominator with
  | .lt => quotient
  | .gt => quotient + 1
  | .eq => quotient + quotient % 2

/-- The bits below the sign of the double nearest to `numerator / denominator`, a half going to the
even neighbour. The significand keeps fifty-three bits; that the exponent field counts on from the
significand's own leading bit makes a carry come out right. -/
def nearestBits (numerator denominator : Nat) : Nat :=
  let scaled := numerator * Nat.pow 2 1074
  let dropped := (scaled / denominator).log2 + 1 - 53
  dropped * Nat.pow 2 52 + roundHalfEven scaled (denominator * Nat.pow 2 dropped)

/-- The bits of the infinite magnitude, one above the greatest finite one. -/
def infiniteBits : Nat := 2047 * Nat.pow 2 52

/-- A number from its sign and the bits below it. -/
def ofParts (negative : Bool) (magnitudeBits : Nat) : Binary64 :=
  ⟨UInt64.ofNat ((if negative then Nat.pow 2 63 else 0) + magnitudeBits)⟩

/-- The double nearest to a quotient, unless it rounds to an infinite one. -/
def ofRatio? (negative : Bool) (numerator denominator : Nat) : Option Binary64 :=
  let magnitudeBits := nearestBits numerator denominator
  if magnitudeBits < infiniteBits then some (ofParts negative magnitudeBits) else none

/-- The double nearest to an integer of at most 64 bits. -/
def ofInt (n : Int) : Binary64 := ofParts (n < 0) (nearestBits n.natAbs 1)

end Binary64

end RestArchive
