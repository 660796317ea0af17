import Mathlib.Tactic.Ring
import RestArchive.Proofs.ProperJson

/-! # The double nearest to an integer

Fifty-three bits of an integer are kept, counted from its leading one. So an integer below `2 ^ 53` is
its own nearest double (`units_ofInt`), and the double nearest to a greater one is not below `2 ^ 53`
either (`le_natAbs_units_ofInt`): where the double is small, nothing was rounded. -/

namespace RestArchive.Binary64

/-- The sign is the one that was given, if the bits below leave it alone. -/
theorem isNegative_ofParts (negative : Bool) {bits : Nat} (h : bits < Nat.pow 2 63) :
    (ofParts negative bits).isNegative = negative := by
  simp only [ofParts, isNegative, word, UInt64.toNat_ofNat', Nat.pow_eq] at h ⊢
  cases negative
  · simpa using by omega
  · simpa using by omega

/-- The units of a double, from its sign, an exponent and fifty-three bits of significand. A significand
of `2 ^ 53` carries over into the exponent. -/
theorem units_ofParts (negative : Bool) {exponent significand : Nat}
    (hlow : Nat.pow 2 52 ≤ significand) (hhigh : significand ≤ Nat.pow 2 53)
    (hfinite : exponent * Nat.pow 2 52 + significand < infiniteBits) :
    (ofParts negative (exponent * Nat.pow 2 52 + significand)).units =
      if negative then -((significand * Nat.pow 2 exponent : Nat) : Int)
      else (significand * Nat.pow 2 exponent : Nat) := by
  have hbits : exponent * Nat.pow 2 52 + significand < Nat.pow 2 63 := by
    simp only [infiniteBits, Nat.pow_eq] at hfinite ⊢
    omega
  have hmagnitude : (ofParts negative (exponent * Nat.pow 2 52 + significand)).significand *
      Nat.pow 2 (ofParts negative (exponent * Nat.pow 2 52 + significand)).shift =
        significand * Nat.pow 2 exponent := by
    simp only [Binary64.significand, shift, exponentField, fraction,
      magnitudeBits_ofParts negative hbits, Nat.pow_eq] at hlow hhigh ⊢
    -- A significand that reached `2 ^ 53` counts as one more in the exponent and leaves no fraction.
    by_cases hcarry : significand = 2 ^ 53
    · have hexponent : (exponent * 2 ^ 52 + significand) / 2 ^ 52 = exponent + 2 := by omega
      have hfraction : (exponent * 2 ^ 52 + significand) % 2 ^ 52 = 0 := by omega
      rw [hexponent, hfraction, if_neg (by omega), hcarry, Nat.add_sub_assoc (by decide)]
      ring
    · have hexponent : (exponent * 2 ^ 52 + significand) / 2 ^ 52 = exponent + 1 := by omega
      have hfraction : (exponent * 2 ^ 52 + significand) % 2 ^ 52 = significand - 2 ^ 52 := by omega
      rw [hexponent, hfraction, if_neg (by omega), Nat.sub_add_cancel hlow, Nat.add_sub_cancel]
  rw [units, isNegative_ofParts negative hbits, hmagnitude]

/-- A quotient that leaves no rest needs no rounding. -/
theorem roundHalfEven_mul (quotient : Nat) {denominator : Nat} (h : 0 < denominator) :
    roundHalfEven (quotient * denominator) denominator = quotient := by
  have hless : compare (2 * 0) denominator = .lt := Nat.compare_eq_lt.mpr h
  rw [roundHalfEven, Nat.mul_mod_left, hless, Nat.mul_div_cancel quotient h]

/-- A quotient is rounded down by less than one. -/
theorem div_le_roundHalfEven (numerator denominator : Nat) :
    numerator / denominator ≤ roundHalfEven numerator denominator := by
  rw [roundHalfEven]
  split <;> omega

/-- A number of at least fifty-three bits keeps that many. -/
theorem le_div_log2 {number : Nat} (h : 52 ≤ number.log2) :
    Nat.pow 2 52 ≤ number / Nat.pow 2 (number.log2 + 1 - 53) := by
  have hzero : number ≠ 0 := by
    rintro rfl
    simp at h
  have hsum : 52 + (number.log2 + 1 - 53) = number.log2 := by omega
  refine (Nat.le_div_iff_mul_le (Nat.two_pow_pos _)).mpr ?_
  calc Nat.pow 2 52 * Nat.pow 2 (number.log2 + 1 - 53) = Nat.pow 2 number.log2 := by
        rw [Nat.pow_eq, Nat.pow_eq, ← Nat.pow_add, hsum, Nat.pow_eq]
    _ ≤ number := Nat.log2_self_le hzero

/-- A number that is shifted gets longer by the shift, at least. -/
theorem add_le_log2_mul {n length : Nat} (h : Nat.pow 2 length ≤ n) (shift : Nat) :
    length + shift ≤ (n * Nat.pow 2 shift).log2 := by
  have hpos : 0 < n := Nat.lt_of_lt_of_le (Nat.two_pow_pos length) h
  refine (Nat.le_log2 (Nat.mul_pos hpos (Nat.two_pow_pos shift)).ne').mpr ?_
  rw [Nat.pow_add]
  exact Nat.mul_le_mul_right _ h

/-- Nothing is left of zero. -/
theorem roundHalfEven_zero (denominator : Nat) : roundHalfEven 0 denominator = 0 := by
  rw [roundHalfEven, Nat.zero_mod, Nat.zero_div]
  split
  case h_1 => rfl
  case h_2 hgreater => exact absurd (Nat.compare_eq_gt.mp hgreater) (Nat.not_lt_zero _)
  case h_3 => rfl

/-- The least positive double is one over two to this power. It is irreducible, so that nothing computes
the power. -/
@[irreducible]
def unitExponent : Nat := 1074

/-- The least positive double is one over two to the power of 1074. -/
theorem unitExponent_eq : unitExponent = 1074 := by
  rw [unitExponent]

/-- How many units one is. -/
def unitsPerOne : Nat := Nat.pow 2 unitExponent

/-- One is some units. -/
theorem unitsPerOne_pos : 0 < unitsPerOne := Nat.two_pow_pos unitExponent

/-- A whole number is scaled to units before it is rounded. -/
theorem nearestBits_whole (n : Nat) : nearestBits n 1 =
    ((n * unitsPerOne).log2 + 1 - 53) * Nat.pow 2 52 +
      roundHalfEven (n * unitsPerOne) (Nat.pow 2 ((n * unitsPerOne).log2 + 1 - 53)) := by
  rw [nearestBits, ← unitExponent_eq, ← unitsPerOne, Nat.div_one, Nat.one_mul]

section Rounded

variable {n : Int} {scaled dropped : Nat}

/-- The units of the double nearest to an integer: those of the integer, with fifty-three bits kept. -/
theorem units_ofInt_eq (hzero : n ≠ 0) (h : n.natAbs < Nat.pow 2 64)
    (hscaled : scaled = n.natAbs * unitsPerOne) (hdropped : dropped = scaled.log2 + 1 - 53) :
    Nat.pow 2 52 ≤ roundHalfEven scaled (Nat.pow 2 dropped) ∧ (ofInt n).units =
      n.sign * ((roundHalfEven scaled (Nat.pow 2 dropped) * Nat.pow 2 dropped : Nat) : Int) := by
  have hbits : nearestBits n.natAbs 1 =
      dropped * Nat.pow 2 52 + roundHalfEven scaled (Nat.pow 2 dropped) := by
    rw [nearestBits_whole, ← hscaled, ← hdropped]
  -- Scaled to units, even one has far more than fifty-three bits.
  have hlow : Nat.pow 2 52 ≤ roundHalfEven scaled (Nat.pow 2 dropped) := by
    have hone : Nat.pow 2 0 ≤ n.natAbs := Nat.pos_of_ne_zero (Int.natAbs_ne_zero.mpr hzero)
    have hlog : 0 + unitExponent ≤ scaled.log2 := hscaled ▸ add_le_log2_mul hone unitExponent
    refine Nat.le_trans ?_ (div_le_roundHalfEven _ _)
    rw [hdropped]
    rw [unitExponent_eq] at hlog
    exact le_div_log2 (Nat.le_trans (by decide) hlog)
  have hhigh : roundHalfEven scaled (Nat.pow 2 dropped) ≤ Nat.pow 2 53 := by
    rw [hdropped]
    exact roundHalfEven_log2_le scaled
  have hfinite : nearestBits n.natAbs 1 < infiniteBits := nearestBits_lt h
  rw [hbits] at hfinite
  refine ⟨hlow, ?_⟩
  rw [ofInt, hbits, units_ofParts _ hlow hhigh hfinite]
  rcases Int.lt_or_gt_of_ne hzero with hneg | hpos
  · rw [decide_eq_true hneg, if_pos rfl, Int.sign_eq_neg_one_of_neg hneg, Int.neg_one_mul]
  · rw [decide_eq_false (Int.lt_asymm hpos), if_neg Bool.false_ne_true,
      Int.sign_eq_one_of_pos hpos, Int.one_mul]

/-- An integer below `2 ^ 53` is its own nearest double. -/
theorem units_ofInt (h : n.natAbs < Nat.pow 2 53) : (ofInt n).units = n * (unitsPerOne : Nat) := by
  by_cases hzero : n = 0
  · subst hzero
    have hbits : nearestBits (Int.natAbs 0) 1 = 0 := by
      rw [nearestBits_whole, Int.natAbs_zero, Nat.zero_mul, Nat.log2_zero, roundHalfEven_zero]
    rw [ofInt, hbits, Int.zero_mul]
    rfl
  obtain ⟨scaled, hscaled⟩ : ∃ scaled, scaled = n.natAbs * unitsPerOne := ⟨_, rfl⟩
  obtain ⟨dropped, hdropped⟩ : ∃ dropped, dropped = scaled.log2 + 1 - 53 := ⟨_, rfl⟩
  have hwide : n.natAbs < Nat.pow 2 64 := Nat.lt_trans h (by decide)
  -- No more bits are dropped than the units have behind the point, and these are all zero.
  have hfew : dropped ≤ unitExponent := by
    have hlog : scaled.log2 < 53 + unitExponent := hscaled ▸ log2_mul_lt (by decide) h unitExponent
    omega
  have hexact : n.natAbs * Nat.pow 2 (unitExponent - dropped) * Nat.pow 2 dropped = scaled := by
    have hpow : Nat.pow 2 (unitExponent - dropped) * Nat.pow 2 dropped = unitsPerOne := by
      rw [unitsPerOne, Nat.pow_eq, Nat.pow_eq, ← Nat.pow_add, Nat.sub_add_cancel hfew, Nat.pow_eq]
    rw [Nat.mul_assoc, hpow, hscaled]
  have hround : roundHalfEven scaled (Nat.pow 2 dropped) * Nat.pow 2 dropped = scaled := by
    have hpos : 0 < Nat.pow 2 dropped := Nat.two_pow_pos dropped
    rw [← hexact, roundHalfEven_mul _ hpos]
  rw [(units_ofInt_eq hzero hwide hscaled hdropped).2, hround, hscaled, Int.natCast_mul,
    ← Int.mul_assoc, Int.sign_mul_natAbs]

/-- The double nearest to an integer that is not below `2 ^ 53` is not below it either. -/
theorem le_natAbs_units_ofInt (hlow : Nat.pow 2 53 ≤ n.natAbs) (hhigh : n.natAbs < Nat.pow 2 64) :
    Nat.pow 2 53 * unitsPerOne ≤ (ofInt n).units.natAbs := by
  obtain ⟨scaled, hscaled⟩ : ∃ scaled, scaled = n.natAbs * unitsPerOne := ⟨_, rfl⟩
  obtain ⟨dropped, hdropped⟩ : ∃ dropped, dropped = scaled.log2 + 1 - 53 := ⟨_, rfl⟩
  have hzero : n ≠ 0 := by
    rintro rfl
    exact absurd hlow (by decide)
  -- All bits behind the point are dropped, and one before it.
  have hmany : 1 + unitExponent ≤ dropped := by
    have hlog : 53 + unitExponent ≤ scaled.log2 := hscaled ▸ add_le_log2_mul hlow unitExponent
    omega
  obtain ⟨hkept, hunits⟩ := units_ofInt_eq hzero hhigh hscaled hdropped
  rw [hunits, Int.natAbs_mul, Int.natAbs_sign_of_ne_zero hzero, Nat.one_mul, Int.natAbs_natCast]
  calc Nat.pow 2 53 * unitsPerOne = Nat.pow 2 52 * Nat.pow 2 (1 + unitExponent) := by
        rw [unitsPerOne, Nat.pow_eq, Nat.pow_eq, Nat.pow_eq, Nat.pow_eq, ← Nat.pow_add,
          ← Nat.pow_add, ← Nat.add_assoc]
    _ ≤ roundHalfEven scaled (Nat.pow 2 dropped) * Nat.pow 2 dropped :=
      Nat.mul_le_mul hkept (Nat.pow_le_pow_right (by decide) hmany)

end Rounded

end RestArchive.Binary64
