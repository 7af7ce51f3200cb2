/-
StructuralEditor/Proofs/Rounding.lean

Rounding depends on the value alone.

A magnitude is rounded from a fraction, and a fraction can be written in many
ways: `Magnitude.ofRatio?` is given its two terms.  The way of writing does not
matter.  What makes this work is that `binaryExponent`, which guesses from the
lengths of the terms, is the binary logarithm of the value
(`binaryExponent_eq_log`), and that the nearest integer is a matter of the value
too (`nearestInteger_div`).  So rounding can be said of rational numbers
(`Magnitude.ofRatio?_eq`).
-/
import Mathlib.Algebra.Order.Field.Power
import Mathlib.Data.Int.Log
import Mathlib.Data.Rat.Floor
import Mathlib.Tactic.NormNum
import Mathlib.Tactic.Positivity
import Mathlib.Tactic.Ring
import StructuralEditor.Number.Shortest

namespace StructuralEditor.Number

-- the powers of the core library, whatever else is imported
attribute [local instance (2000)] instPowNat

variable {a b c d : Nat}

/-! ### Rounding to an integer -/

theorem roundHalfEven_mul (num den : Nat) {k : Nat} (hk : 0 < k) :
    roundHalfEven (num * k) (den * k) = roundHalfEven num den := by
  have hquotient : num * k / (den * k) = num / den := Nat.mul_div_mul_right num den hk
  have hremainder : num * k % (den * k) = num % den * k := Nat.mul_mod_mul_right k num den
  have hbelow : 2 * (num % den * k) < den * k ↔ 2 * (num % den) < den := by
    rw [← Nat.mul_assoc]
    exact Nat.mul_lt_mul_right hk
  have habove : den * k < 2 * (num % den * k) ↔ den < 2 * (num % den) := by
    rw [← Nat.mul_assoc]
    exact Nat.mul_lt_mul_right hk
  simp only [roundHalfEven, hquotient, hremainder, hbelow, habove]

/-- Equal fractions are rounded to the same integer. -/
theorem roundHalfEven_congr (hb : 0 < b) (hd : 0 < d) (h : a * d = c * b) :
    roundHalfEven a b = roundHalfEven c d := by
  rw [← roundHalfEven_mul a b hd, ← roundHalfEven_mul c d hb, h, Nat.mul_comm b d]

theorem roundHalfEven_one (n : Nat) : roundHalfEven n 1 = n := by
  simp [roundHalfEven, Nat.mod_one]

/-! ### The binary exponent -/

/-- A power with an integer exponent, as a fraction of natural numbers. -/
theorem zpow_eq_div {x : ℚ} (hx : x ≠ 0) (k : Int) :
    x ^ k = x ^ k.toNat / x ^ (-k).toNat := by
  rw [← zpow_natCast, ← zpow_natCast, ← zpow_sub₀ hx, Int.toNat_sub_toNat_neg]

theorem two_zpow_le_div (k : Int) (num : Nat) {den : Nat} (hden : 0 < den) :
    (2 : ℚ) ^ k ≤ (num : ℚ) / den ↔ den * 2 ^ k.toNat ≤ num * 2 ^ (-k).toNat := by
  rw [zpow_eq_div two_ne_zero, div_le_div_iff₀ (by positivity) (by positivity),
    ← Nat.cast_le (α := ℚ)]
  push_cast
  rw [mul_comm]

/-- What lies between two powers has the lower one's exponent as logarithm. -/
theorem log_eq_of_le_of_lt {x : ℚ} {k : Int} (hlower : (2 : ℚ) ^ k ≤ x) (hupper : x < 2 ^ (k + 1)) :
    Int.log 2 x = k := by
  have hpos : 0 < x := lt_of_lt_of_le (by positivity) hlower
  have hle : k ≤ Int.log 2 x := (Int.zpow_le_iff_le_log (by decide) hpos).1 hlower
  have hlt : Int.log 2 x < k + 1 := (Int.lt_zpow_iff_log_lt (by decide) hpos).1 hupper
  omega

/-- The exponent of a fraction is its binary logarithm. -/
theorem binaryExponent_eq_log {num den : Nat} (hnum : 0 < num) (hden : 0 < den) :
    binaryExponent num den = Int.log 2 ((num : ℚ) / den) := by
  have hle (k : Int) : den * 2 ^ k.toNat ≤ num * 2 ^ (-k).toNat ↔ (2 : ℚ) ^ k ≤ num / den :=
    (two_zpow_le_div k num hden).symm
  -- the lengths of the terms leave two candidates, …
  have hlower : (2 : ℚ) ^ ((num.log2 : Int) - den.log2 - 1) ≤ (num : ℚ) / den := by
    rw [show (num.log2 : Int) - den.log2 - 1 = (num.log2 : Int) - (den.log2 + 1 : Nat) by omega,
      zpow_sub₀ two_ne_zero, zpow_natCast, zpow_natCast]
    apply div_le_div₀ (by positivity)
    · exact_mod_cast Nat.log2_self_le (Nat.ne_of_gt hnum)
    · positivity
    · exact_mod_cast Nat.le_of_lt Nat.lt_log2_self
  have hupper : (num : ℚ) / den < 2 ^ ((num.log2 : Int) - den.log2 + 1) := by
    rw [show (num.log2 : Int) - den.log2 + 1 = ((num.log2 + 1 : Nat) : Int) - den.log2 by omega,
      zpow_sub₀ two_ne_zero, zpow_natCast, zpow_natCast]
    apply div_lt_div₀
    · exact_mod_cast Nat.lt_log2_self
    · exact_mod_cast Nat.log2_self_le (Nat.ne_of_gt hden)
    · positivity
    · positivity
  -- … and the comparison decides between them
  unfold binaryExponent
  simp only [hle]
  split
  · next hk => exact (log_eq_of_le_of_lt hk hupper).symm
  · next hk =>
    refine (log_eq_of_le_of_lt hlower ?_).symm
    rw [Int.sub_add_cancel]
    exact not_le.1 hk

/-! ### Values -/

/-- The exact value of a magnitude. -/
def Magnitude.value (x : Magnitude) : ℚ :=
  x.significand * 2 ^ x.exponent

/-- The exact value of a decimal. -/
def Decimal.value (d : Decimal) : ℚ :=
  d.digits * 10 ^ d.exponent

/-- The integer nearest to a value, a half going to the even neighbour. -/
def nearestInteger (v : ℚ) : Nat :=
  roundHalfEven v.num.toNat v.den

variable {v : ℚ}

theorem num_toNat_div_den (hv : 0 ≤ v) : (v.num.toNat : ℚ) / v.den = v := by
  have hnum : ((v.num.toNat : ℤ) : ℚ) = v.num := by
    rw [Int.toNat_of_nonneg (Rat.num_nonneg.2 hv)]
  calc (v.num.toNat : ℚ) / v.den = (v.num : ℚ) / v.den := by rw [← hnum, Int.cast_natCast]
    _ = v := Rat.num_div_den v

theorem nearestInteger_div (a : Nat) {b : Nat} (hb : 0 < b) :
    nearestInteger ((a : ℚ) / b) = roundHalfEven a b := by
  have hvalue := num_toNat_div_den (v := (a : ℚ) / b) (by positivity)
  apply roundHalfEven_congr (Rat.den_pos _) hb
  rw [div_eq_div_iff (by exact_mod_cast (Rat.den_pos _).ne') (by exact_mod_cast hb.ne')] at hvalue
  exact_mod_cast hvalue

/-- The exponent of the unit to which a positive value is rounded. -/
def unitExponent (v : ℚ) : ℤ :=
  max (-1074) (Int.log 2 v - 52)

namespace Magnitude

theorem denominator_pos (x : Magnitude) : 0 < x.denominator :=
  Nat.pow_pos (by decide)

theorem eq_zero_of_significand {x : Magnitude} (hx : x.significand = 0) : x = 0 := by
  obtain ⟨m, e, hstandard⟩ := x
  obtain rfl : m = 0 := hx
  obtain rfl : e = -1074 := by
    obtain ⟨-, -, -, hmin | hmin⟩ := hstandard
    · exact absurd hmin (by decide)
    · exact hmin
  rfl

theorem numerator_div_denominator (x : Magnitude) :
    (x.numerator : ℚ) / x.denominator = x.value := by
  rw [value, zpow_eq_div two_ne_zero, numerator, denominator]
  push_cast
  rw [mul_div_assoc]

theorem numerator_pos {x : Magnitude} (hx : x.significand ≠ 0) : 0 < x.numerator :=
  Nat.mul_pos (Nat.pos_of_ne_zero hx) (Nat.pow_pos (by decide))

variable {num den : Nat}

/-- Rounding a fraction, by its value. -/
theorem ofRatio?_eq (hnum : 0 < num) (hden : 0 < den) :
    ofRatio? num den =
      let e := unitExponent ((num : ℚ) / den)
      let m := nearestInteger ((num : ℚ) / den / 2 ^ e)
      if m = 2 ^ 53 then ofStandard? (2 ^ 52) (e + 1) else ofStandard? m e := by
  have hround (e : Int) : roundHalfEven (num * 2 ^ (-e).toNat) (den * 2 ^ e.toNat) =
      nearestInteger ((num : ℚ) / den / 2 ^ e) := by
    rw [← nearestInteger_div _ (by positivity), zpow_eq_div two_ne_zero]
    congr 1
    push_cast
    rw [div_div_div_eq]
  unfold ofRatio?
  rw [if_neg (by omega), binaryExponent_eq_log hnum hden]
  simp only [hround]
  rfl

end Magnitude

theorem Decimal.value_eq_div (d : Decimal) :
    ((d.digits * 10 ^ d.exponent.toNat : Nat) : ℚ) / (10 ^ (-d.exponent).toNat : Nat) =
      d.value := by
  rw [value, zpow_eq_div (by norm_num)]
  push_cast
  rw [mul_div_assoc]

end StructuralEditor.Number
