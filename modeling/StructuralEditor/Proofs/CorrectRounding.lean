/-
StructuralEditor/Proofs/CorrectRounding.lean

Reading rounds correctly.

What a value is rounded to is said here without any of the steps that compute
it: no magnitude is nearer to the value, an even significand decides between two
that are equally near (`Magnitude.IsNearest`), and from halfway between the
greatest magnitude and `2 ^ 1024` on there is none (`Double.IsRounded`).

That the steps come to this is a matter of one unit.  Among the magnitudes that
are integers in the unit of the value, the nearest integer is the nearest one
(`nearestInteger_nearest`).  The other magnitudes have a smaller unit and so lie
below the first one with 53 bits, which is an integer in the unit of the value
and nearer than they are (`Magnitude.isNearest_of_ofRatio?`).

There is one nearest magnitude only, since between two with even significands
there is a third one (`Magnitude.IsNearest.unique`).
-/
import StructuralEditor.Proofs.Nearest

namespace StructuralEditor.Number

-- the powers of the core library, whatever else is imported
attribute [local instance (2000)] instPowNat

/-! ### The nearest integer -/

/-- Of the integers a half away, the even one is taken. -/
theorem even_roundHalfEven {a b : Nat} (hb : 0 < b)
    (h : 2 * (roundHalfEven a b * b) = 2 * a + b ∨ 2 * a = 2 * (roundHalfEven a b * b) + b) :
    Even (roundHalfEven a b) := by
  have ha := Nat.div_add_mod' a b
  have hr := Nat.mod_lt a hb
  unfold roundHalfEven at h ⊢
  simp only at h ⊢
  split_ifs at h ⊢ with hbelow habove
  · omega
  · rw [Nat.add_mul] at h
    omega
  · rw [Nat.even_iff]
    omega

variable {v : ℚ}

theorem even_nearestInteger (hv : 0 ≤ v) (h : |(nearestInteger v : ℚ) - v| = 1 / 2) :
    Even (nearestInteger v) := by
  have hden : (0 : ℚ) < v.den := by exact_mod_cast v.den_pos
  have hvalue := num_toNat_div_den hv
  rw [div_eq_iff hden.ne'] at hvalue
  apply even_roundHalfEven v.den_pos
  rcases (abs_eq (by norm_num)).1 h with hhalf | hhalf
  · left
    have hinteger : (nearestInteger v : ℚ) = v + 1 / 2 := by linarith
    have hcast : (2 * (nearestInteger v * v.den) : ℚ) = 2 * v.num.toNat + v.den := by
      rw [hvalue, hinteger]
      ring
    exact_mod_cast hcast
  · right
    have hinteger : (nearestInteger v : ℚ) = v - 1 / 2 := by linarith
    have hcast : (2 * v.num.toNat : ℚ) = 2 * (nearestInteger v * v.den) + v.den := by
      rw [hvalue, hinteger]
      ring
    exact_mod_cast hcast

/-- **No integer is nearer than the nearest one**, and one as near only if that is even. -/
theorem nearestInteger_nearest (hv : 0 ≤ v) (k : Nat) :
    |(nearestInteger v : ℚ) - v| ≤ |k - v| ∧
      (|(nearestInteger v : ℚ) - v| = |k - v| → k = nearestInteger v ∨ Even (nearestInteger v)) := by
  by_cases hk : k = nearestInteger v
  · exact ⟨by rw [hk], fun _ => .inl hk⟩
  · have hhalf := abs_nearestInteger_sub_le hv
    have heven := even_nearestInteger hv
    generalize nearestInteger v = n at *
    -- two integers are at least one apart
    have hapart : (1 : ℚ) ≤ |(k : ℚ) - n| := by
      have hne : (k : ℤ) - n ≠ 0 := by omega
      exact_mod_cast Int.one_le_abs hne
    have htriangle : |(k : ℚ) - n| ≤ |k - v| + |n - v| := by
      rw [abs_sub_comm (n : ℚ) v]
      exact abs_sub_le _ _ _
    refine ⟨by linarith, fun htie => .inr (heven ?_)⟩
    linarith

/-! ### The nearest magnitude -/

/-- Whether no magnitude is nearer to a value; if another one is as near, the
significand is even. -/
def Magnitude.IsNearest (x : Magnitude) (v : ℚ) : Prop :=
  ∀ y : Magnitude, |x.value - v| ≤ |y.value - v| ∧
    (|x.value - v| = |y.value - v| → y = x ∨ Even x.significand)

namespace Magnitude

/-- In a unit that is not greater than its own, a magnitude is an integer. -/
theorem value_eq_mul {x : Magnitude} {e : ℤ} (h : e ≤ x.exponent) :
    x.value = ((x.significand * 2 ^ (x.exponent - e).toNat : Nat) : ℚ) * 2 ^ e := by
  have hpower : (2 : ℚ) ^ (x.exponent - e).toNat = 2 ^ (x.exponent - e) := by
    rw [← zpow_natCast, Int.toNat_of_nonneg (by omega)]
  push_cast
  rw [value, mul_assoc, hpower, ← zpow_add₀ two_ne_zero, sub_add_cancel]

/-- Magnitudes with a smaller exponent have fewer than 53 bits before the point. -/
theorem value_lt_of_exponent_lt {x : Magnitude} {e : ℤ} (h : x.exponent < e) :
    x.value < 2 ^ 52 * 2 ^ e := by
  obtain ⟨hlt, -, -, -⟩ := x.standard
  calc x.value < 2 ^ 53 * 2 ^ x.exponent :=
        mul_lt_mul_of_pos_right (by exact_mod_cast hlt) (by positivity)
    _ = 2 ^ 52 * 2 ^ (x.exponent + 1) := by
        rw [zpow_add_one₀ two_ne_zero]
        ring
    _ ≤ 2 ^ 52 * 2 ^ e := by
        have hpower : (2 : ℚ) ^ (x.exponent + 1) ≤ 2 ^ e := zpow_le_zpow_right₀ one_le_two h
        exact mul_le_mul_of_nonneg_left hpower (by positivity)

theorem value_eq_units (x : Magnitude) : x.value = x.units * 2 ^ (-1074 : ℤ) := by
  obtain ⟨-, hmin, -, -⟩ := x.standard
  rw [value_eq_mul hmin, units, sub_neg_eq_add]

/-- A magnitude is told by its value. -/
theorem eq_of_value {x y : Magnitude} (h : x.value = y.value) : x = y := by
  rw [value_eq_units, value_eq_units] at h
  apply eq_of_units
  exact_mod_cast mul_right_cancel₀ (by positivity) h

theorem isNearest_zero : IsNearest 0 0 := by
  intro y
  have hzero : (0 : Magnitude).value = 0 := by
    rw [value]
    exact zero_mul _
  rw [hzero, sub_self, abs_zero, sub_zero]
  exact ⟨abs_nonneg _, fun _ => .inr Even.zero⟩

/-- Between two magnitudes with even significands there is a third one. -/
theorem exists_between {x y : Magnitude} (hx : Even x.significand) (hy : Even y.significand)
    (h : x.value < y.value) : ∃ z : Magnitude, x.value < z.value ∧ z.value < y.value := by
  obtain ⟨hlt, hmin, hmax, hfull⟩ := x.standard
  have hcarry : x.significand + 1 < 2 ^ 53 := by
    obtain ⟨k, hk⟩ := hx
    omega
  let z : Magnitude := ⟨x.significand + 1, x.exponent, hcarry, hmin, hmax, by omega⟩
  have hunit : (0 : ℚ) < 2 ^ x.exponent := by positivity
  have hz : z.value = (x.significand + 1 : Nat) * 2 ^ x.exponent := rfl
  have hle : x.exponent ≤ y.exponent := by
    by_contra hbelow
    have hylt := value_lt_of_exponent_lt (not_le.1 hbelow)
    have hxle : (2 ^ 52 : ℚ) * 2 ^ x.exponent ≤ x.value := by
      apply mul_le_mul_of_nonneg_right _ hunit.le
      have hymin := y.standard.2.1
      exact_mod_cast hfull.resolve_right (by omega)
    linarith
  refine ⟨z, ?_, ?_⟩
  · rw [hz, value]
    push_cast
    linarith
  · -- the next magnitude has an odd significand
    rw [value_eq_mul hle, value] at h
    have hstep : x.significand + 1 ≤ y.significand * 2 ^ (y.exponent - x.exponent).toNat := by
      exact_mod_cast lt_of_mul_lt_mul_right h hunit.le
    have hodd : x.significand + 1 ≠ y.significand * 2 ^ (y.exponent - x.exponent).toNat := by
      intro heq
      have heven : Even (x.significand + 1) := heq ▸ hy.mul_right _
      exact (Nat.even_add_one.1 heven) hx
    rw [hz, value_eq_mul hle]
    apply mul_lt_mul_of_pos_right _ hunit
    exact_mod_cast lt_of_le_of_ne hstep hodd

/-- The nearest magnitude is one only. -/
theorem IsNearest.unique {x y : Magnitude} {v : ℚ} (hx : x.IsNearest v) (hy : y.IsNearest v) :
    x = y := by
  -- of two that are nearest, none can have another one on its side of the value
  have hside {x y : Magnitude} (hx : x.IsNearest v) (hy : y.IsNearest v) : ¬ x.value < y.value := by
    intro hlt
    have htie : |x.value - v| = |y.value - v| := le_antisymm (hx y).1 (hy x).1
    have hevenx : Even x.significand :=
      ((hx y).2 htie).resolve_left (by rintro rfl; exact lt_irrefl _ hlt)
    have heveny : Even y.significand :=
      ((hy x).2 htie.symm).resolve_left (by rintro rfl; exact lt_irrefl _ hlt)
    obtain ⟨z, hxz, hzy⟩ := exists_between hevenx heveny hlt
    have hmiddle : v - x.value = y.value - v := by
      rcases abs_eq_abs.1 htie with h | h <;> linarith
    have hnear := (hx z).1
    rw [abs_of_nonpos (by linarith)] at hnear
    have hbetween : |z.value - v| < v - x.value := abs_lt.2 ⟨by linarith, by linarith⟩
    linarith
  apply eq_of_value
  exact le_antisymm (not_lt.1 (hside hy hx)) (not_lt.1 (hside hx hy))

variable {num den : Nat} {x : Magnitude}

/-- A fraction is rounded to so many of its units. -/
theorem value_of_ofRatio? (hnum : 0 < num) (hden : 0 < den) (h : ofRatio? num den = some x) :
    let e := unitExponent ((num : ℚ) / den)
    let n := nearestInteger ((num : ℚ) / den / 2 ^ e)
    x.value = n * 2 ^ e ∧ (Even n → Even x.significand) := by
  rw [ofRatio?_eq hnum hden] at h
  simp only at h ⊢
  generalize unitExponent ((num : ℚ) / den) = e at *
  generalize nearestInteger ((num : ℚ) / den / 2 ^ e) = n at *
  split_ifs at h with hcarry
  · obtain ⟨hm, he⟩ := ofStandard?_eq_some h
    refine ⟨?_, fun _ => ?_⟩
    · rw [value, hm, he, hcarry, zpow_add_one₀ two_ne_zero]
      push_cast
      ring
    · rw [hm]
      decide
  · obtain ⟨rfl, rfl⟩ := ofStandard?_eq_some h
    exact ⟨rfl, id⟩

/-- **A fraction is rounded to the nearest magnitude**, … -/
theorem isNearest_of_ofRatio? (hnum : 0 < num) (hden : 0 < den)
    (h : ofRatio? num den = some x) : x.IsNearest ((num : ℚ) / den) := by
  obtain ⟨hvalue, heven⟩ := value_of_ofRatio? hnum hden h
  have hv : (0 : ℚ) < (num : ℚ) / den := by positivity
  have hfull := le_div_unit hv
  have hmin : -1074 ≤ unitExponent ((num : ℚ) / den) := le_max_left _ _
  generalize (num : ℚ) / den = v at *
  generalize unitExponent v = e at *
  -- counted in units, the distances are those of integers
  have hunit : (0 : ℚ) < 2 ^ e := by positivity
  have hscale (k : ℚ) : |k * 2 ^ e - v| = |k - v / 2 ^ e| * 2 ^ e := by
    rw [← abs_of_pos hunit, ← abs_mul, abs_of_pos hunit, sub_mul, div_mul_cancel₀ v hunit.ne']
  have hnearest := nearestInteger_nearest (v := v / 2 ^ e) (by positivity)
  intro y
  rw [hvalue, hscale]
  rcases le_or_gt e y.exponent with hle | hlt
  · obtain ⟨hnear, htie⟩ := hnearest (y.significand * 2 ^ (y.exponent - e).toNat)
    rw [value_eq_mul hle, hscale]
    refine ⟨mul_le_mul_of_nonneg_right hnear hunit.le, fun heq => ?_⟩
    rcases htie (mul_right_cancel₀ hunit.ne' heq) with hsame | hn
    · left
      apply eq_of_value
      rw [hvalue, value_eq_mul hle, hsame]
    · exact .inr (heven hn)
  · -- what has a smaller unit is below all that has 53 bits, and so is further away
    obtain ⟨hnear, -⟩ := hnearest (2 ^ 52)
    have hbelow : y.value < 2 ^ 52 * 2 ^ e := value_lt_of_exponent_lt hlt
    have habove : 2 ^ 52 ≤ v / 2 ^ e := hfull (by have := y.standard.2.1; omega)
    have hlow : 2 ^ 52 * 2 ^ e ≤ v := (le_div_iff₀ hunit).1 habove
    have hcast : ((2 ^ 52 : ℕ) : ℚ) = 2 ^ 52 := by push_cast; rfl
    rw [hcast] at hnear
    have hlt : |(nearestInteger (v / 2 ^ e) : ℚ) - v / 2 ^ e| * 2 ^ e < |y.value - v| := by
      calc |(nearestInteger (v / 2 ^ e) : ℚ) - v / 2 ^ e| * 2 ^ e
          ≤ |2 ^ 52 - v / 2 ^ e| * 2 ^ e := mul_le_mul_of_nonneg_right hnear hunit.le
        _ = v - 2 ^ 52 * 2 ^ e := by rw [← hscale, abs_of_nonpos (by linarith)]; ring
        _ < v - y.value := by linarith
        _ = |y.value - v| := by rw [abs_of_nonpos (by linarith)]; ring
    exact ⟨hlt.le, fun heq => absurd heq hlt.ne⟩

/-- The overflow in the unit of the last binade. -/
theorem overflow_eq : (overflow : ℚ) = (2 ^ 53 - 1 / 2) * 2 ^ (971 : ℤ) := by
  have hcast (unit : Nat) (h : 2 * overflow + unit = 2 ^ 54 * unit) :
      (overflow : ℚ) = (2 ^ 53 - 1 / 2) * unit := by
    have hdouble : (2 * overflow : ℚ) + unit = 2 ^ 54 * unit := by exact_mod_cast h
    linarith
  rw [hcast (2 ^ 971) (by decide +kernel), Nat.cast_pow, zpow_ofNat, Nat.cast_ofNat]

/-- What is below the overflow is rounded to a magnitude. -/
theorem roundedUnits_lt {v : ℚ} (hpos : 0 < v) (hv : v < overflow) : roundedUnits v < 2 ^ 2098 := by
  have hle := nearestInteger_unit_le hpos
  have hfull := le_div_unit hpos
  have hnear : nearestInteger (v / 2 ^ unitExponent v) - v / 2 ^ unitExponent v ≤ (1 / 2 : ℚ) :=
    (abs_le.1 (abs_nearestInteger_sub_le (by positivity))).2
  have hunits (e : ℤ) : 2 ^ 53 * 2 ^ (e + 1074).toNat = 2 ^ (53 + (e + 1074).toNat) :=
    (Nat.pow_add ..).symm
  rw [overflow_eq] at hv
  unfold roundedUnits
  generalize unitExponent v = e at *
  have hunit : (0 : ℚ) < 2 ^ e := by positivity
  rcases lt_or_ge e 971 with hlt | hge
  · calc nearestInteger (v / 2 ^ e) * 2 ^ (e + 1074).toNat
        ≤ 2 ^ 53 * 2 ^ (e + 1074).toNat := Nat.mul_le_mul_right _ hle
      _ = 2 ^ (53 + (e + 1074).toNat) := hunits e
      _ < 2 ^ 2098 := by
        gcongr
        · decide
        · omega
  · have hlast : e = 971 := by
      by_contra hne
      have hlow : 2 ^ 52 * 2 ^ e ≤ v := (le_div_iff₀ hunit).1 (hfull (by omega))
      have hpower : 2 * (2 : ℚ) ^ (971 : ℤ) ≤ 2 ^ e := by
        rw [← zpow_one_add₀ two_ne_zero]
        exact zpow_le_zpow_right₀ one_le_two (by omega)
      have hpos : (0 : ℚ) < 2 ^ (971 : ℤ) := by positivity
      generalize (2 : ℚ) ^ (971 : ℤ) = unit at *
      linarith
    -- in the last binade, what would be rounded up to the next one is not below the overflow
    have hbelow : v / 2 ^ e < 2 ^ 53 - 1 / 2 := by
      rw [← hlast] at hv
      exact (div_lt_iff₀ hunit).2 hv
    have hinteger : nearestInteger (v / 2 ^ e) < 2 ^ 53 := by
      have hcast : (nearestInteger (v / 2 ^ e) : ℚ) < 2 ^ 53 := by linarith
      exact_mod_cast hcast
    calc nearestInteger (v / 2 ^ e) * 2 ^ (e + 1074).toNat
        < 2 ^ 53 * 2 ^ (e + 1074).toNat :=
          Nat.mul_lt_mul_of_pos_right hinteger (Nat.two_pow_pos _)
      _ = 2 ^ (53 + (e + 1074).toNat) := hunits e
      _ ≤ 2 ^ 2098 := by
        gcongr
        · decide
        · omega

/-- … unless its value is not below the overflow. -/
theorem ofRatio?_eq_none_iff_overflow (hnum : 0 < num) (hden : 0 < den) :
    ofRatio? num den = none ↔ overflow ≤ (num : ℚ) / den := by
  rw [ofRatio?_eq_none_iff hnum hden]
  constructor
  · intro h
    by_contra hlt
    have hround := roundedUnits_lt (by positivity) (not_le.1 hlt)
    omega
  · exact le_roundedUnits_of_overflow

end Magnitude

/-! ### The nearest double -/

/-- What a value is rounded to, its sign given apart: the nearest finite double,
or an infinity if the value is too large for one. -/
inductive Double.IsRounded (negative : Bool) (v : ℚ) : Double → Prop
  | finite {m : Magnitude} :
      v < Magnitude.overflow → m.IsNearest v → IsRounded negative v (.finite negative m)
  | infinite : Magnitude.overflow ≤ v → IsRounded negative v (.infinite negative)

theorem Double.IsRounded.unique {negative : Bool} {v : ℚ} {x y : Double}
    (hx : x.IsRounded negative v) (hy : y.IsRounded negative v) : x = y := by
  cases hx with
  | finite hlt hx =>
    cases hy with
    | finite _ hy => rw [hx.unique hy]
    | infinite hle => exact absurd hle (not_le.2 hlt)
  | infinite hle =>
    cases hy with
    | finite hlt _ => exact absurd hle (not_le.2 hlt)
    | infinite _ => rfl

/-- **A decimal is read as the double nearest to it.** -/
theorem Double.isRounded_ofDecimal (negative : Bool) (d : Decimal) :
    IsRounded negative d.value (.ofDecimal negative d.digits d.exponent) := by
  rw [ofDecimal]
  by_cases hd : d.digits = 0
  · have hvalue : d.value = 0 := by rw [Decimal.value, hd, Nat.cast_zero, zero_mul]
    have hpos : 0 < Magnitude.overflow := by decide +kernel
    rw [hvalue, Magnitude.ofDecimal?, if_pos hd]
    exact .finite (by exact_mod_cast hpos) Magnitude.isNearest_zero
  · have hnum : 0 < d.digits * 10 ^ d.exponent.toNat :=
      Nat.mul_pos (Nat.pos_of_ne_zero hd) (Nat.pow_pos (by decide))
    have hden : 0 < 10 ^ (-d.exponent).toNat := Nat.pow_pos (by decide)
    have hnone := Magnitude.ofRatio?_eq_none_iff_overflow hnum hden
    rw [Magnitude.ofDecimal?_eq_ofRatio?]
    rw [d.value_eq_div] at hnone
    rcases hread : Magnitude.ofRatio? _ _ with - | m
    · exact .infinite (hnone.1 hread)
    · have hnearest := Magnitude.isNearest_of_ofRatio? hnum hden hread
      rw [d.value_eq_div] at hnearest
      refine .finite (not_le.1 (mt hnone.2 ?_)) hnearest
      rw [hread]
      exact Option.some_ne_none m

end StructuralEditor.Number
