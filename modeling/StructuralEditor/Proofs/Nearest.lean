/-
StructuralEditor/Proofs/Nearest.lean

Rounding keeps the order.

A value is rounded to an integer of units, and the unit grows with the value: it
is a power of two that leaves 53 bits before the point.  Counted in the least
unit of all, `2^-1074`, what a value is rounded to is a natural number,
`roundedUnits`, and that function is monotone (`roundedUnits_mono`): within one
unit because the nearest integer is, and from one unit to the next because the
smaller unit reaches just as far as the greater one begins.

Magnitudes are told by their units (`Magnitude.eq_of_units`), so reading a
fraction or a decimal as a magnitude is the same as rounding its value to units
(`Magnitude.ofRatio?_eq_some_iff`, `Magnitude.ofDecimal?_eq_some_iff`).  What is
proved of reading is proved in this form.
-/
import Mathlib.Algebra.Order.Floor.Semifield
import Mathlib.Tactic.Linarith
import StructuralEditor.Proofs.Rounding

namespace StructuralEditor.Number

-- the powers of the core library, whatever else is imported
attribute [local instance (2000)] instPowNat

/-! ### The nearest integer -/

section

variable {a b c d : Nat}

/-- Greater fractions are rounded to greater integers. -/
theorem roundHalfEven_mono (hb : 0 < b) (hd : 0 < d) (h : a * d ≤ c * b) :
    roundHalfEven a b ≤ roundHalfEven c d := by
  have ha := Nat.div_add_mod a b
  have hc := Nat.div_add_mod c d
  have hr := Nat.mod_lt a hb
  have hr' := Nat.mod_lt c hd
  have hq : a / b ≤ c / d := by
    rw [Nat.le_div_iff_mul_le hd]
    refine Nat.le_of_mul_le_mul_right ?_ hb
    calc a / b * d * b = a / b * b * d := Nat.mul_right_comm ..
      _ ≤ a * d := Nat.mul_le_mul_right d (Nat.div_mul_le_self a b)
      _ ≤ c * b := h
  unfold roundHalfEven
  rcases Nat.lt_or_eq_of_le hq with hlt | heq
  · simp only
    split_ifs <;> omega
  · -- with the same whole part, the remainders compare as the fractions do
    have hrem : a % b * d ≤ c % d * b := by
      have hleft : a * d = a / b * (b * d) + a % b * d := by
        conv_lhs => rw [← ha]
        ring
      have hright : c * b = c / d * (b * d) + c % d * b := by
        conv_lhs => rw [← hc]
        ring
      rw [hleft, hright, heq] at h
      omega
    have hbelow : 2 * (c % d) < d → 2 * (a % b) < b := by
      intro hlt
      by_contra hge
      nlinarith
    have habove : b < 2 * (a % b) → d < 2 * (c % d) := by
      intro hlt
      by_contra hge
      nlinarith
    simp only [heq]
    split_ifs <;> omega

theorem roundHalfEven_eq_div_or (a b : Nat) :
    roundHalfEven a b = a / b ∨ roundHalfEven a b = a / b + 1 := by
  unfold roundHalfEven
  simp only
  split_ifs <;> omega

/-- The nearest integer is at most a half away. -/
theorem roundHalfEven_near (a : Nat) (hb : 0 < b) :
    2 * (roundHalfEven a b * b) ≤ 2 * a + b ∧ 2 * a ≤ 2 * (roundHalfEven a b * b) + b := by
  have ha := Nat.div_add_mod' a b
  have hr := Nat.mod_lt a hb
  unfold roundHalfEven
  simp only
  split_ifs with hbelow habove
  · omega
  · rw [Nat.add_mul]
    omega
  · rcases Nat.mod_two_eq_zero_or_one (a / b) with heven | hodd
    · rw [heven, Nat.add_zero]
      omega
    · rw [hodd, Nat.add_mul]
      omega

end

variable {v w : ℚ}

theorem nearestInteger_mono (hv : 0 ≤ v) (h : v ≤ w) : nearestInteger v ≤ nearestInteger w := by
  have hvalue := num_toNat_div_den hv
  have hvalue' := num_toNat_div_den (hv.trans h)
  apply roundHalfEven_mono v.den_pos w.den_pos
  rw [← hvalue, ← hvalue',
    div_le_div_iff₀ (by exact_mod_cast v.den_pos) (by exact_mod_cast w.den_pos)] at h
  exact_mod_cast h

theorem nearestInteger_natCast (n : Nat) : nearestInteger n = n := by
  have hdiv := nearestInteger_div n (b := 1) Nat.one_pos
  rwa [Nat.cast_one, div_one, roundHalfEven_one] at hdiv

theorem nearestInteger_eq_floor_or (hv : 0 ≤ v) :
    nearestInteger v = ⌊v⌋₊ ∨ nearestInteger v = ⌊v⌋₊ + 1 := by
  have hfloor : ⌊v⌋₊ = v.num.toNat / v.den := by
    conv_lhs => rw [← num_toNat_div_den hv]
    exact Nat.floor_div_eq_div ..
  rw [hfloor]
  exact roundHalfEven_eq_div_or ..

theorem abs_nearestInteger_sub_le (hv : 0 ≤ v) : |(nearestInteger v : ℚ) - v| ≤ 1 / 2 := by
  obtain ⟨hlow, hhigh⟩ := roundHalfEven_near v.num.toNat v.den_pos
  have hden : (0 : ℚ) < v.den := by exact_mod_cast v.den_pos
  have hvalue := num_toNat_div_den hv
  rw [div_eq_iff hden.ne'] at hvalue
  have hlow : (2 * (nearestInteger v * v.den) : ℚ) ≤ 2 * v.num.toNat + v.den := by
    exact_mod_cast hlow
  have hhigh : (2 * v.num.toNat : ℚ) ≤ 2 * (nearestInteger v * v.den) + v.den := by
    exact_mod_cast hhigh
  rw [hvalue] at hlow hhigh
  rw [abs_le]
  constructor
  · refine le_of_mul_le_mul_right ?_ hden
    linarith
  · refine le_of_mul_le_mul_right ?_ hden
    linarith

/-- What is nearer than a half is the nearest integer. -/
theorem nearestInteger_eq {n : Nat} (hv : 0 ≤ v) (hnear : |v - n| < 1 / 2) :
    nearestInteger v = n := by
  obtain ⟨hlow, hhigh⟩ := abs_le.1 (abs_nearestInteger_sub_le hv)
  obtain ⟨hleft, hright⟩ := abs_lt.1 hnear
  have hle : (nearestInteger v : ℚ) < n + 1 := by linarith
  have hge : (n : ℚ) < nearestInteger v + 1 := by linarith
  have hle : nearestInteger v < n + 1 := by exact_mod_cast hle
  have hge : n < nearestInteger v + 1 := by exact_mod_cast hge
  omega

/-! ### Units -/

/-- A value after rounding, in units of `2^-1074`. -/
def roundedUnits (v : ℚ) : Nat :=
  nearestInteger (v / 2 ^ unitExponent v) * 2 ^ (unitExponent v + 1074).toNat

theorem unitExponent_mono (hv : 0 < v) (h : v ≤ w) : unitExponent v ≤ unitExponent w := by
  have hlog := Int.log_mono_right (b := 2) hv h
  unfold unitExponent
  omega

/-- In its units a value has at most 53 bits before the point, … -/
theorem div_unit_lt (v : ℚ) : v / 2 ^ unitExponent v < 2 ^ 53 := by
  have hlog := Int.lt_zpow_succ_log_self (b := 2) (by decide) v
  rw [div_lt_iff₀ (by positivity), ← zpow_natCast, ← zpow_add₀ two_ne_zero]
  refine hlog.trans_le (zpow_le_zpow_right₀ one_le_two ?_)
  unfold unitExponent
  push_cast
  omega

/-- … and exactly as many unless the unit is the least one. -/
theorem le_div_unit (hv : 0 < v) (h : -1074 < unitExponent v) :
    2 ^ 52 ≤ v / 2 ^ unitExponent v := by
  have hlog := Int.zpow_log_le_self (b := 2) (by decide) hv
  rw [le_div_iff₀ (by positivity), ← zpow_natCast, ← zpow_add₀ two_ne_zero]
  refine (zpow_le_zpow_right₀ one_le_two ?_).trans hlog
  unfold unitExponent at h ⊢
  push_cast
  omega

theorem unitExponent_eq {e : ℤ} (hv : 0 < v) (hlow : 2 ^ 52 ≤ v / 2 ^ e ∨ e = -1074)
    (hhigh : v / 2 ^ e < 2 ^ 53) (hmin : -1074 ≤ e) : unitExponent v = e := by
  rw [div_lt_iff₀ (by positivity), ← zpow_natCast, ← zpow_add₀ two_ne_zero] at hhigh
  rw [le_div_iff₀ (by positivity), ← zpow_natCast, ← zpow_add₀ two_ne_zero] at hlow
  have hhigh := (Int.lt_zpow_iff_log_lt (b := 2) (by decide) hv).1 (by exact_mod_cast hhigh)
  have hlow := hlow.imp_left fun h =>
    (Int.zpow_le_iff_le_log (b := 2) (by decide) hv).1 (by exact_mod_cast h)
  unfold unitExponent
  omega

/-- A value is rounded to the integer of its units that is nearer than a half. -/
theorem roundedUnits_eq {e : ℤ} {n : Nat} (hv : 0 < v) (hlow : 2 ^ 52 ≤ v / 2 ^ e ∨ e = -1074)
    (hhigh : v / 2 ^ e < 2 ^ 53) (hmin : -1074 ≤ e) (hnear : |v / 2 ^ e - n| < 1 / 2) :
    roundedUnits v = n * 2 ^ (e + 1074).toNat := by
  rw [roundedUnits, unitExponent_eq hv hlow hhigh hmin, nearestInteger_eq (by positivity) hnear]

theorem nearestInteger_unit_le (hv : 0 < v) : nearestInteger (v / 2 ^ unitExponent v) ≤ 2 ^ 53 := by
  have hle := nearestInteger_mono (by positivity) (div_unit_lt v).le
  have hcast : ((2 ^ 53 : ℕ) : ℚ) = 2 ^ 53 := by push_cast; rfl
  rwa [← hcast, nearestInteger_natCast] at hle

theorem le_nearestInteger_unit (hv : 0 < v) (h : -1074 < unitExponent v) :
    2 ^ 52 ≤ nearestInteger (v / 2 ^ unitExponent v) := by
  have hle := nearestInteger_mono (by positivity) (le_div_unit hv h)
  have hcast : ((2 ^ 52 : ℕ) : ℚ) = 2 ^ 52 := by push_cast; rfl
  rwa [← hcast, nearestInteger_natCast] at hle

/-- **Rounding keeps the order.** -/
theorem roundedUnits_mono (hv : 0 < v) (h : v ≤ w) : roundedUnits v ≤ roundedUnits w := by
  have hw := hv.trans_le h
  rcases (unitExponent_mono hv h).lt_or_eq with hlt | heq
  · -- a greater unit begins where the smaller one ends
    have hmin : -1074 ≤ unitExponent v := le_max_left _ _
    calc roundedUnits v ≤ 2 ^ 53 * 2 ^ (unitExponent v + 1074).toNat :=
          Nat.mul_le_mul_right _ (nearestInteger_unit_le hv)
      _ = 2 ^ 52 * 2 ^ ((unitExponent v + 1074).toNat + 1) := by ring
      _ ≤ 2 ^ 52 * 2 ^ (unitExponent w + 1074).toNat :=
          Nat.mul_le_mul_left _ (Nat.pow_le_pow_right (by decide) (by omega))
      _ ≤ roundedUnits w := Nat.mul_le_mul_right _ (le_nearestInteger_unit hw (by omega))
  · unfold roundedUnits
    rw [heq]
    refine Nat.mul_le_mul_right _ (nearestInteger_mono (by positivity) ?_)
    gcongr

/-! ### Magnitudes -/

namespace Magnitude

theorem units_lt (x : Magnitude) : x.units < 2 ^ 2098 := by
  obtain ⟨hlt, -, hmax, -⟩ := x.standard
  calc x.significand * 2 ^ (x.exponent + 1074).toNat
      < 2 ^ 53 * 2 ^ (x.exponent + 1074).toNat :=
        Nat.mul_lt_mul_of_pos_right hlt (Nat.two_pow_pos _)
    _ = 2 ^ (53 + (x.exponent + 1074).toNat) := (Nat.pow_add ..).symm
    _ ≤ 2 ^ 2098 := by
      gcongr
      · decide
      · omega

/-- A magnitude with a greater exponent is greater. -/
theorem units_lt_units {x y : Magnitude} (h : x.exponent < y.exponent) : x.units < y.units := by
  obtain ⟨hx, hmin, -, -⟩ := x.standard
  obtain ⟨-, -, -, hfull⟩ := y.standard
  have hfull := hfull.resolve_right (by omega)
  calc x.significand * 2 ^ (x.exponent + 1074).toNat
      < 2 ^ 53 * 2 ^ (x.exponent + 1074).toNat :=
        Nat.mul_lt_mul_of_pos_right hx (Nat.two_pow_pos _)
    _ = 2 ^ 52 * 2 ^ ((x.exponent + 1074).toNat + 1) := by ring
    _ ≤ 2 ^ 52 * 2 ^ (y.exponent + 1074).toNat :=
        Nat.mul_le_mul_left _ (Nat.pow_le_pow_right (by decide) (by omega))
    _ ≤ y.units := Nat.mul_le_mul_right _ hfull

/-- A magnitude is told by its units. -/
theorem eq_of_units {x y : Magnitude} (h : x.units = y.units) : x = y := by
  have heq : x.exponent = y.exponent := by
    have hle := mt units_lt_units h.not_gt
    have hge := mt units_lt_units h.symm.not_gt
    omega
  have hsignificand : x.significand = y.significand := by
    simp only [units, heq] at h
    exact Nat.eq_of_mul_eq_mul_right (Nat.two_pow_pos _) h
  cases x
  cases y
  simp_all

theorem ofStandard?_eq {m : Nat} {e : Int} (h : IsStandard m e) :
    ofStandard? m e = some ⟨m, e, h⟩ :=
  dif_pos h

theorem ofStandard?_eq_some {m : Nat} {e : Int} {x : Magnitude} (h : ofStandard? m e = some x) :
    x.significand = m ∧ x.exponent = e := by
  unfold ofStandard? at h
  split at h
  · obtain rfl := Option.some.inj h
    exact ⟨rfl, rfl⟩
  · cases h

variable {num den : Nat} {x : Magnitude}

/-- What a fraction is rounded to has its value, rounded, as units. -/
theorem units_of_ofRatio? (hnum : 0 < num) (hden : 0 < den) (h : ofRatio? num den = some x) :
    x.units = roundedUnits ((num : ℚ) / den) := by
  have hmin : -1074 ≤ unitExponent ((num : ℚ) / den) := le_max_left _ _
  rw [ofRatio?_eq hnum hden] at h
  rw [roundedUnits]
  simp only at h
  generalize unitExponent ((num : ℚ) / den) = e at *
  generalize nearestInteger ((num : ℚ) / den / 2 ^ e) = m at *
  split_ifs at h with hcarry
  · obtain ⟨hm, he⟩ := ofStandard?_eq_some h
    rw [units, hm, he, hcarry, show (e + 1 + 1074).toNat = (e + 1074).toNat + 1 by omega]
    ring
  · obtain ⟨hm, he⟩ := ofStandard?_eq_some h
    rw [units, hm, he]

/-- A fraction is rounded to some magnitude unless its value is beyond them. -/
theorem isSome_ofRatio? (hnum : 0 < num) (hden : 0 < den)
    (h : roundedUnits ((num : ℚ) / den) < 2 ^ 2098) : (ofRatio? num den).isSome = true := by
  have hv : (0 : ℚ) < (num : ℚ) / den := by positivity
  have hle := nearestInteger_unit_le hv
  have hge := le_nearestInteger_unit hv
  have hmin : -1074 ≤ unitExponent ((num : ℚ) / den) := le_max_left _ _
  rw [ofRatio?_eq hnum hden]
  rw [roundedUnits] at h
  simp only
  generalize unitExponent ((num : ℚ) / den) = e at *
  generalize nearestInteger ((num : ℚ) / den / 2 ^ e) = m at *
  split_ifs with hcarry
  · have hlt : 2 ^ (53 + (e + 1074).toNat) < 2 ^ 2098 := by
      rwa [Nat.pow_add, ← hcarry]
    have hexponent := (Nat.pow_lt_pow_iff_right (by decide)).1 hlt
    rw [ofStandard?_eq ⟨by decide, by omega, by omega, .inl (by decide)⟩, Option.isSome_some]
  · have hstandard : IsStandard m e := by
      refine ⟨by omega, hmin, ?_, ?_⟩
      · by_contra hgt
        have hlt : 2 ^ (52 + (e + 1074).toNat) < 2 ^ 2098 := by
          rw [Nat.pow_add]
          exact (Nat.mul_le_mul_right _ (hge (by omega))).trans_lt h
        have hexponent := (Nat.pow_lt_pow_iff_right (by decide)).1 hlt
        omega
      · by_cases hleast : e = -1074
        · exact .inr hleast
        · exact .inl (hge (by omega))
    rw [ofStandard?_eq hstandard, Option.isSome_some]

/-- **Rounding a fraction is rounding its value to units**, … -/
theorem ofRatio?_eq_some_iff (hnum : 0 < num) (hden : 0 < den) :
    ofRatio? num den = some x ↔ roundedUnits ((num : ℚ) / den) = x.units := by
  constructor
  · intro h
    exact (units_of_ofRatio? hnum hden h).symm
  · intro h
    obtain ⟨y, hy⟩ := Option.isSome_iff_exists.1 (isSome_ofRatio? hnum hden (h ▸ x.units_lt))
    rw [hy, eq_of_units ((units_of_ofRatio? hnum hden hy).trans h)]

/-- … unless the units lie beyond the finite magnitudes. -/
theorem ofRatio?_eq_none_iff (hnum : 0 < num) (hden : 0 < den) :
    ofRatio? num den = none ↔ 2 ^ 2098 ≤ roundedUnits ((num : ℚ) / den) := by
  constructor
  · intro h
    by_contra hlt
    have hsome := isSome_ofRatio? hnum hden (not_le.1 hlt)
    rw [h] at hsome
    cases hsome
  · intro h
    rcases hx : ofRatio? num den with - | x
    · rfl
    · have hunits := units_of_ofRatio? hnum hden hx
      have hlt := x.units_lt
      omega

/-- **A magnitude is rounded to itself.** -/
theorem roundedUnits_value (hx : x.significand ≠ 0) : roundedUnits x.value = x.units := by
  obtain ⟨hlt, hmin, -, hfull⟩ := x.standard
  have hpos : (0 : ℚ) < x.significand := by exact_mod_cast Nat.pos_of_ne_zero hx
  have hvalue : 0 < x.value := mul_pos hpos (by positivity)
  have hscale : x.value / 2 ^ x.exponent = x.significand := by
    rw [value]
    field_simp
  apply roundedUnits_eq hvalue _ _ hmin
  · rw [hscale, sub_self, abs_zero]
    norm_num
  · rw [hscale]
    exact hfull.imp_left fun h => by exact_mod_cast h
  · rw [hscale]
    exact_mod_cast hlt

end Magnitude

/-! ### Decimals -/

theorem digitCount_le_iff {n k : Nat} (hk : 0 < k) : digitCount n ≤ k ↔ n < 10 ^ k :=
  Nat.length_toDigits_le_iff (by decide) hk

theorem lt_pow_digitCount (n : Nat) : n < 10 ^ digitCount n :=
  (digitCount_le_iff Nat.length_toDigits_pos).1 (Nat.le_refl _)

theorem pow_digitCount_le {n : Nat} (hn : n ≠ 0) : 10 ^ (digitCount n - 1) ≤ n := by
  rcases Nat.eq_zero_or_pos (digitCount n - 1) with hone | hmore
  · rw [hone]
    exact Nat.pos_of_ne_zero hn
  · exact not_lt.1 (mt (digitCount_le_iff hmore).2 (by omega))

namespace Decimal

variable {d : Decimal}

/-- The point of a decimal tells its decade. -/
theorem decade (hd : d.digits ≠ 0) :
    10 ^ (d.toDigits.point - 1) ≤ d.value ∧ d.value < 10 ^ d.toDigits.point := by
  have hpos : 0 < digitCount d.digits := Nat.length_toDigits_pos
  have hpoint : d.toDigits.point = digitCount d.digits + d.exponent := rfl
  rw [value, hpoint]
  constructor
  · rw [show (digitCount d.digits : ℤ) + d.exponent - 1 =
      ((digitCount d.digits - 1 : Nat) : ℤ) + d.exponent by omega,
      zpow_add₀ (by norm_num), zpow_natCast]
    gcongr
    exact_mod_cast pow_digitCount_le hd
  · rw [zpow_add₀ (by norm_num), zpow_natCast]
    gcongr
    exact_mod_cast lt_pow_digitCount d.digits

theorem value_pos (hd : d.digits ≠ 0) : 0 < d.value :=
  (by positivity : (0 : ℚ) < 10 ^ (d.toDigits.point - 1)).trans_le (decade hd).1

end Decimal

namespace Magnitude

variable {d : Decimal} {x : Magnitude}

theorem ofRatio?_one_eq_none_of_le {m n : Nat} (hm : 0 < m) (hle : m ≤ n)
    (h : ofRatio? m 1 = none) : ofRatio? n 1 = none := by
  rw [ofRatio?_eq_none_iff hm Nat.one_pos] at h
  rw [ofRatio?_eq_none_iff (hm.trans_le hle) Nat.one_pos]
  refine h.trans (roundedUnits_mono (by positivity) ?_)
  gcongr

/-- Halfway between the greatest magnitude and `2 ^ 1024`. -/
def overflow : Nat := 2 ^ 1024 - 2 ^ 970

/-- From there on an integer is nearer to `2 ^ 1024` than to any magnitude. -/
theorem ofRatio?_one_eq_none_iff {n : Nat} : ofRatio? n 1 = none ↔ overflow ≤ n := by
  have hpos : 0 < overflow := by decide +kernel
  have hfirst : ofRatio? overflow 1 = none := by decide +kernel
  have hlast : ofRatio? (overflow - 1) 1 ≠ none := by decide +kernel
  generalize overflow = limit at *
  constructor
  · intro hnone
    by_contra hlt
    have hn : 0 < n := by
      apply Nat.pos_of_ne_zero
      rintro rfl
      cases hnone
    exact hlast (ofRatio?_one_eq_none_of_le hn (by omega) hnone)
  · intro hle
    exact ofRatio?_one_eq_none_of_le hpos hle hfirst

/-- What is not less is rounded beyond the magnitudes, … -/
theorem le_roundedUnits_of_overflow {v : ℚ} (hv : overflow ≤ v) : 2 ^ 2098 ≤ roundedUnits v := by
  have hpos : 0 < overflow := by decide +kernel
  have hnone := ofRatio?_one_eq_none_iff.2 (Nat.le_refl overflow)
  generalize overflow = limit at *
  rw [ofRatio?_eq_none_iff hpos Nat.one_pos, Nat.cast_one, div_one] at hnone
  exact hnone.trans (roundedUnits_mono (by positivity) hv)

/-- … and what is at most half the least magnitude is rounded to zero. -/
theorem roundedUnits_eq_zero {v : ℚ} (hpos : 0 < v) (hv : v ≤ 1 / 2 ^ 1075) :
    roundedUnits v = 0 := by
  have hzero : ofRatio? 1 (2 ^ 1075) = some 0 := by decide +kernel
  have hunits := (ofRatio?_eq_some_iff Nat.one_pos (Nat.two_pow_pos _)).1 hzero
  refine Nat.eq_zero_of_le_zero ((roundedUnits_mono hpos ?_).trans_eq hunits)
  exact_mod_cast hv

/-- **A decimal is read as its fraction is rounded.**  The decades in which the answer is
given without rounding are those where rounding gives it too. -/
theorem ofDecimal?_eq_ofRatio? (d : Decimal) :
    ofDecimal? d.digits d.exponent =
      ofRatio? (d.digits * 10 ^ d.exponent.toNat) (10 ^ (-d.exponent).toNat) := by
  by_cases hd : d.digits = 0
  · simp [ofDecimal?, ofRatio?, hd]
  have hnum : 0 < d.digits * 10 ^ d.exponent.toNat :=
    Nat.mul_pos (Nat.pos_of_ne_zero hd) (Nat.pow_pos (by decide))
  have hden : 0 < 10 ^ (-d.exponent).toNat := Nat.pow_pos (by decide)
  obtain ⟨hlow, hhigh⟩ := Decimal.decade hd
  have hpoint : d.toDigits.point = digitCount d.digits + d.exponent := rfl
  rw [ofDecimal?, if_neg hd]
  simp only [← hpoint]
  generalize d.toDigits.point = point at *
  split_ifs with hlarge hsmall
  · have hpower : (overflow : ℚ) ≤ 10 ^ (309 : ℤ) := by
      have hpowers : overflow ≤ 10 ^ 309 := by decide +kernel
      exact_mod_cast hpowers
    have hdecade : (10 : ℚ) ^ (309 : ℤ) ≤ 10 ^ (point - 1) :=
      zpow_le_zpow_right₀ (by norm_num) (by omega)
    refine ((ofRatio?_eq_none_iff hnum hden).2 ?_).symm
    rw [d.value_eq_div]
    exact le_roundedUnits_of_overflow (hpower.trans (hdecade.trans hlow))
  · have hpower : (10 : ℚ) ^ (-324 : ℤ) ≤ 1 / 2 ^ 1075 := by
      have hpowers : 2 ^ 1075 ≤ 10 ^ 324 := by decide +kernel
      rw [zpow_neg, inv_eq_one_div]
      apply one_div_le_one_div_of_le (by positivity)
      exact_mod_cast hpowers
    have hdecade : (10 : ℚ) ^ point ≤ 10 ^ (-324 : ℤ) :=
      zpow_le_zpow_right₀ (by norm_num) hsmall
    refine ((ofRatio?_eq_some_iff hnum hden).2 ?_).symm
    rw [d.value_eq_div]
    exact roundedUnits_eq_zero (Decimal.value_pos hd) (hhigh.le.trans (hdecade.trans hpower))
  · rfl

/-- What a decimal is read as depends on its value. -/
theorem ofDecimal?_eq_some_iff (hd : d.digits ≠ 0) :
    ofDecimal? d.digits d.exponent = some x ↔ roundedUnits d.value = x.units := by
  have hnum : 0 < d.digits * 10 ^ d.exponent.toNat :=
    Nat.mul_pos (Nat.pos_of_ne_zero hd) (Nat.pow_pos (by decide))
  rw [ofDecimal?_eq_ofRatio?, ofRatio?_eq_some_iff hnum (Nat.pow_pos (by decide)), d.value_eq_div]

end Magnitude

end StructuralEditor.Number
