/-
StructuralEditor/Proofs/Shortest.lean

The shortest decimal is the shortest.

`Magnitude.shortest` looks at two decimals of each length only, those next to the
magnitude.  That is enough, because the values that are read as a magnitude are
an interval (`readsBack_between`): if a decimal of `n` digits lies in it, then so
does the neighbour on the same side (`exists_neighbour_readsBack`).  And the
search succeeds, because with seventeen digits the nearer neighbour is too close
to be read as anything else (`readsBack_nearer`).

So no decimal that reads back has fewer digits (`length_shortest_le`), and where
the point of the shortest decimal is can be told by comparing the magnitude with
powers of ten (`lt_iff_point_shortest_le`).
-/
import StructuralEditor.Proofs.Digits
import StructuralEditor.Proofs.Nearest

namespace StructuralEditor.Number

-- the powers of the core library, whatever else is imported
attribute [local instance (2000)] instPowNat

/-! ### The grid of the decimals with so many digits -/

theorem decimalPoint_decade {num den : Nat} (hnum : 0 < num) (hden : 0 < den) :
    10 ^ (decimalPoint num den - 1) ≤ (num : ℚ) / den ∧
      (num : ℚ) / den < 10 ^ decimalPoint num den := by
  have hden' : (0 : ℚ) < den := by exact_mod_cast hden
  have hten : (10 : ℚ) ≠ 0 := by norm_num
  unfold decimalPoint
  split
  · next hle =>
    -- the digits before the point
    have hquotient : num / den ≠ 0 := (Nat.div_pos hle hden).ne'
    have hlow := pow_digitCount_le hquotient
    have hhigh := lt_pow_digitCount (num / den)
    have hpos : 0 < digitCount (num / den) := Nat.length_toDigits_pos
    rw [Nat.le_div_iff_mul_le hden] at hlow
    rw [Nat.div_lt_iff_lt_mul hden] at hhigh
    rw [le_div_iff₀ hden', div_lt_iff₀ hden', zpow_natCast,
      show (digitCount (num / den) : ℤ) - 1 = ((digitCount (num / den) - 1 : Nat) : ℤ) by omega,
      zpow_natCast]
    exact ⟨by exact_mod_cast hlow, by exact_mod_cast hhigh⟩
  · next hlt =>
    -- the zeros after the point
    have hquotient : (den - 1) / num ≠ 0 := (Nat.div_pos (by omega) hnum).ne'
    have hlow := pow_digitCount_le hquotient
    have hhigh := lt_pow_digitCount ((den - 1) / num)
    have hpos : 0 < digitCount ((den - 1) / num) := Nat.length_toDigits_pos
    rw [Nat.le_div_iff_mul_le hnum] at hlow
    rw [Nat.div_lt_iff_lt_mul hnum] at hhigh
    generalize digitCount ((den - 1) / num) = count at *
    have hlow : den ≤ 10 ^ count * num := by omega
    have hhigh : 10 ^ (count - 1) * num < den := by omega
    rw [show (1 : ℤ) - count - 1 = -count by omega,
      show (1 : ℤ) - count = -((count - 1 : Nat) : ℤ) by omega, zpow_neg, zpow_neg, zpow_natCast,
      zpow_natCast, inv_le_iff_one_le_mul₀' (by positivity),
      lt_inv_comm₀ (by positivity) (by positivity)]
    constructor
    · rw [mul_div_assoc', le_div_iff₀ hden', one_mul]
      exact_mod_cast hlow
    · rw [inv_div, lt_div_iff₀ (by exact_mod_cast hnum)]
      exact_mod_cast hhigh

/-- Digits have the value of their decimal. -/
theorem Decimal.value_toDigits (d : Decimal) : d.toDigits.toDecimal.value = d.value := by
  obtain ⟨zeros, hdigits, hexponent⟩ := d.exists_zeros_toDigits
  rw [value, value, ← hdigits, hexponent, zpow_add₀ (by norm_num), zpow_natCast]
  push_cast
  ring

namespace Magnitude

variable {x : Magnitude}

/-- The place of the point of a magnitude. -/
def point (x : Magnitude) : ℤ :=
  decimalPoint x.numerator x.denominator

theorem decade (hx : x.significand ≠ 0) :
    10 ^ (x.point - 1) ≤ x.value ∧ x.value < 10 ^ x.point := by
  rw [← x.numerator_div_denominator]
  exact decimalPoint_decade (numerator_pos hx) x.denominator_pos

theorem value_pos (hx : x.significand ≠ 0) : 0 < x.value :=
  (by positivity : (0 : ℚ) < 10 ^ (x.point - 1)).trans_le (decade hx).1

/-- A magnitude in the units of the grid of the decimals with `n` digits. -/
def onGrid (x : Magnitude) (n : Nat) : ℚ :=
  x.value / 10 ^ (x.point - n)

/-- The number on the grid that `k` units make. -/
def gridPoint (x : Magnitude) (n k : Nat) : Decimal :=
  ⟨k, x.point - n⟩

theorem value_gridPoint_le_iff {n k : Nat} :
    (x.gridPoint n k).value ≤ x.value ↔ (k : ℚ) ≤ x.onGrid n :=
  (le_div_iff₀ (by positivity)).symm

theorem value_gridPoint_mono (x : Magnitude) (n : Nat) {j k : Nat} (h : j ≤ k) :
    (x.gridPoint n j).value ≤ (x.gridPoint n k).value := by
  have hcast : (j : ℚ) ≤ k := by exact_mod_cast h
  exact mul_le_mul_of_nonneg_right hcast (by positivity)

/-- On its grid a magnitude has `n` digits before the point. -/
theorem le_onGrid (hx : x.significand ≠ 0) {n : Nat} (hn : 1 ≤ n) :
    10 ^ (n - 1) ≤ x.onGrid n := by
  rw [onGrid, le_div_iff₀ (by positivity), ← zpow_natCast, ← zpow_add₀ (by norm_num)]
  refine (decade hx).1.trans' (zpow_le_zpow_right₀ (by norm_num) ?_)
  omega

theorem onGrid_lt (hx : x.significand ≠ 0) (n : Nat) : x.onGrid n < 10 ^ n := by
  rw [onGrid, div_lt_iff₀ (by positivity), ← zpow_natCast, ← zpow_add₀ (by norm_num)]
  refine (decade hx).2.trans_le (zpow_le_zpow_right₀ (by norm_num) ?_)
  omega

theorem onGrid_pos (hx : x.significand ≠ 0) (n : Nat) : 0 < x.onGrid n :=
  div_pos (value_pos hx) (by positivity)

/-- The neighbours are the grid points on both sides of the magnitude. -/
theorem neighbours_eq (x : Magnitude) (n : Nat) :
    x.neighbours n =
      if nearestInteger (x.onGrid n) = ⌊x.onGrid n⌋₊ then
        [x.gridPoint n ⌊x.onGrid n⌋₊, x.gridPoint n (⌊x.onGrid n⌋₊ + 1)]
      else [x.gridPoint n (⌊x.onGrid n⌋₊ + 1), x.gridPoint n ⌊x.onGrid n⌋₊] := by
  have hvalue (e : ℤ) : x.value / 10 ^ e =
      ((x.numerator * 10 ^ (-e).toNat : Nat) : ℚ) / (x.denominator * 10 ^ e.toNat : Nat) := by
    rw [← x.numerator_div_denominator, zpow_eq_div (by norm_num)]
    push_cast
    rw [div_div_div_eq]
  have hpos (e : ℤ) : 0 < x.denominator * 10 ^ e.toNat :=
    Nat.mul_pos x.denominator_pos (Nat.pow_pos (by decide))
  simp only [onGrid, hvalue, nearestInteger_div _ (hpos _), Nat.floor_div_eq_div]
  rfl

theorem mem_neighbours_iff {n : Nat} {c : Decimal} :
    c ∈ x.neighbours n ↔
      c = x.gridPoint n ⌊x.onGrid n⌋₊ ∨ c = x.gridPoint n (⌊x.onGrid n⌋₊ + 1) := by
  rw [neighbours_eq]
  split
  · simp
  · simp [or_comm]

theorem pow_le_floor_onGrid (hx : x.significand ≠ 0) {n : Nat} (hn : 1 ≤ n) :
    10 ^ (n - 1) ≤ ⌊x.onGrid n⌋₊ :=
  Nat.le_floor (by exact_mod_cast le_onGrid hx hn)

/-- A neighbour has at most `n` digits, or is the power of ten that follows. -/
theorem digits_neighbours_le (hx : x.significand ≠ 0) {n : Nat} {c : Decimal}
    (hc : c ∈ x.neighbours n) : c.digits ≤ 10 ^ n := by
  have hlt : ⌊x.onGrid n⌋₊ < 10 ^ n := by
    rw [Nat.floor_lt (onGrid_pos hx n).le]
    exact_mod_cast onGrid_lt hx n
  rcases mem_neighbours_iff.1 hc with rfl | rfl
  · exact hlt.le
  · exact hlt

/-! ### What reads back -/

variable {c d : Decimal}

theorem readsBack_iff (hd : d.digits ≠ 0) :
    x.readsBack d = true ↔ roundedUnits d.value = x.units := by
  rw [readsBack, beq_iff_eq, ofDecimal?_eq_some_iff hd]

theorem digits_ne_zero_of_readsBack (hx : x.significand ≠ 0) (h : x.readsBack d = true) :
    d.digits ≠ 0 := by
  intro hzero
  rw [readsBack, ofDecimal?, if_pos hzero, beq_iff_eq] at h
  exact hx (congrArg significand (Option.some.inj h)).symm

/-- What a decimal is read as is a matter of its value. -/
theorem readsBack_congr (h : c.value = d.value) : x.readsBack c = x.readsBack d := by
  have hzero (b : Decimal) : b.digits = 0 ↔ b.value = 0 := by
    simp [Decimal.value, zpow_ne_zero]
  by_cases hd : d.digits = 0
  · have hc : c.digits = 0 := by rwa [hzero, h, ← hzero]
    rw [readsBack, readsBack, ofDecimal?, ofDecimal?, if_pos hc, if_pos hd]
  · have hc : c.digits ≠ 0 := by rwa [Ne, hzero, h, ← hzero]
    rw [Bool.eq_iff_iff, readsBack_iff hc, readsBack_iff hd, h]

/-- What lies between a magnitude and a decimal that reads back, reads back. -/
theorem readsBack_between (hx : x.significand ≠ 0) (hc : c.digits ≠ 0)
    (h : x.readsBack d = true)
    (hbetween : d.value ≤ c.value ∧ c.value ≤ x.value ∨
      x.value ≤ c.value ∧ c.value ≤ d.value) :
    x.readsBack c = true := by
  have hd := digits_ne_zero_of_readsBack hx h
  have hself := roundedUnits_value hx
  rw [readsBack_iff hd] at h
  rw [readsBack_iff hc]
  rcases hbetween with ⟨hlow, hhigh⟩ | ⟨hlow, hhigh⟩
  · have hleft := roundedUnits_mono (Decimal.value_pos hd) hlow
    have hright := roundedUnits_mono (Decimal.value_pos hc) hhigh
    omega
  · have hleft := roundedUnits_mono (value_pos hx) hlow
    have hright := roundedUnits_mono (Decimal.value_pos hc) hhigh
    omega

/-- A decimal of at most `n` digits is on the grid, unless it lies below the decade. -/
theorem exists_value_gridPoint {n : Nat} (hd : d.digits ≠ 0) (hn : digitCount d.digits ≤ n)
    (hdecade : 10 ^ (x.point - 1) ≤ d.value) : ∃ k, d.value = (x.gridPoint n k).value := by
  have hexponent : x.point - n ≤ d.exponent := by
    have hlt := hdecade.trans_lt (Decimal.decade hd).2
    have hpoint : d.toDigits.point = digitCount d.digits + d.exponent := rfl
    have hlt := (zpow_lt_zpow_iff_right₀ (by norm_num)).1 hlt
    omega
  refine ⟨d.digits * 10 ^ (d.exponent - (x.point - n)).toNat, ?_⟩
  rw [gridPoint, Decimal.value, Decimal.value]
  push_cast
  rw [mul_assoc, ← zpow_natCast, ← zpow_add₀ (by norm_num), Int.toNat_of_nonneg (by omega),
    sub_add_cancel]

/-- No decimal of at most `n` digits is between a magnitude and its lower neighbour, … -/
theorem value_le_lower (hx : x.significand ≠ 0) {n : Nat} (hd : d.digits ≠ 0)
    (hn : digitCount d.digits ≤ n) (hle : d.value ≤ x.value) :
    d.value ≤ (x.gridPoint n ⌊x.onGrid n⌋₊).value := by
  by_cases hdecade : 10 ^ (x.point - 1) ≤ d.value
  · obtain ⟨k, hk⟩ := exists_value_gridPoint hd hn hdecade
    rw [hk] at hle ⊢
    exact value_gridPoint_mono x n (Nat.le_floor (value_gridPoint_le_iff.1 hle))
  · -- what is below the decade is below its first grid point
    have hn : 1 ≤ n := Nat.length_toDigits_pos.trans_le hn
    calc d.value ≤ 10 ^ (x.point - 1) := (not_le.1 hdecade).le
      _ = (x.gridPoint n (10 ^ (n - 1))).value := by
          rw [gridPoint, Decimal.value]
          push_cast
          rw [← zpow_natCast, ← zpow_add₀ (by norm_num)]
          congr 1
          omega
      _ ≤ _ := value_gridPoint_mono x n (pow_le_floor_onGrid hx hn)

/-- … and none is between it and its upper one. -/
theorem upper_le_value (hx : x.significand ≠ 0) {n : Nat} (hd : d.digits ≠ 0)
    (hn : digitCount d.digits ≤ n) (hlt : x.value < d.value) :
    (x.gridPoint n (⌊x.onGrid n⌋₊ + 1)).value ≤ d.value := by
  obtain ⟨k, hk⟩ := exists_value_gridPoint hd hn ((decade hx).1.trans hlt.le)
  rw [hk] at hlt ⊢
  have hlt := lt_of_not_ge (mt value_gridPoint_le_iff.2 hlt.not_ge)
  exact value_gridPoint_mono x n ((Nat.floor_lt (onGrid_pos hx n).le).2 hlt)

/-- **The neighbours suffice**: if some decimal of at most `n` digits reads back, then so
does one of the two next to the magnitude. -/
theorem exists_neighbour_readsBack (hx : x.significand ≠ 0) {n : Nat}
    (hn : digitCount d.digits ≤ n) (h : x.readsBack d = true) :
    ∃ c ∈ x.neighbours n, x.readsBack c = true := by
  have hd := digits_ne_zero_of_readsBack hx h
  rcases le_or_gt d.value x.value with hle | hlt
  · have hpos : 0 < ⌊x.onGrid n⌋₊ :=
      (Nat.pow_pos (by decide)).trans_le
        (pow_le_floor_onGrid hx (Nat.length_toDigits_pos.trans_le hn))
    refine ⟨x.gridPoint n ⌊x.onGrid n⌋₊, mem_neighbours_iff.2 (.inl rfl), ?_⟩
    exact readsBack_between hx hpos.ne' h (.inl ⟨value_le_lower hx hd hn hle,
      value_gridPoint_le_iff.2 (Nat.floor_le (onGrid_pos hx n).le)⟩)
  · refine ⟨x.gridPoint n (⌊x.onGrid n⌋₊ + 1), mem_neighbours_iff.2 (.inr rfl), ?_⟩
    have habove : ¬ (x.gridPoint n (⌊x.onGrid n⌋₊ + 1)).value ≤ x.value := by
      rw [value_gridPoint_le_iff, not_le, Nat.cast_add_one]
      exact Nat.lt_floor_add_one _
    exact readsBack_between hx (Nat.succ_ne_zero _) h (.inr ⟨(not_le.1 habove).le,
      upper_le_value hx hd hn hlt⟩)

/-! ### Seventeen digits -/

/-- What is nearer to a magnitude than half a unit in its seventeenth digit is rounded to
it.  Below a power of two the unit of rounding is half as long. -/
theorem roundedUnits_of_near (hx : x.significand ≠ 0) {w : ℚ}
    (hnear : |w - x.value| ≤ x.value / (2 * 10 ^ 16)) : roundedUnits w = x.units := by
  obtain ⟨hlt, hmin, -, hfull⟩ := x.standard
  have hunit : (0 : ℚ) < 2 ^ x.exponent := by positivity
  have hlt : (x.significand : ℚ) + 1 ≤ 2 ^ 53 := by exact_mod_cast hlt
  have hpos : (1 : ℚ) ≤ x.significand := by exact_mod_cast Nat.pos_of_ne_zero hx
  -- in the units of the magnitude
  obtain ⟨t, rfl⟩ : ∃ t, w = t * 2 ^ x.exponent := ⟨w / 2 ^ x.exponent, by field_simp⟩
  have hnear : |t - x.significand| ≤ x.significand / (2 * 10 ^ 16) := by
    rw [value, ← sub_mul, abs_mul, abs_of_pos hunit, mul_div_right_comm] at hnear
    exact le_of_mul_le_mul_right hnear hunit
  obtain ⟨hlow, hhigh⟩ := abs_le.1 hnear
  have ht : 0 < t := by linarith
  have hscale : t * 2 ^ x.exponent / 2 ^ x.exponent = t := by field_simp
  by_cases hbinade : 2 ^ 52 ≤ t ∨ x.exponent = -1074
  · rw [units]
    apply roundedUnits_eq (by positivity) (by rwa [hscale]) _ hmin
    · rw [hscale, abs_lt]
      constructor <;> linarith
    · rw [hscale]
      linarith
  · rw [not_or, not_le] at hbinade
    obtain ⟨hbelow, hexponent⟩ := hbinade
    have hfull := hfull.resolve_right hexponent
    -- only below the least significand does the unit change
    have hsignificand : x.significand = 2 ^ 52 := by
      refine Nat.le_antisymm ?_ hfull
      by_contra hmore
      have hmore : (2 ^ 52 : ℚ) + 1 ≤ x.significand := by exact_mod_cast not_le.1 hmore
      linarith
    rw [hsignificand] at hlow hhigh
    push_cast at hlow hhigh
    have hscale : t * 2 ^ x.exponent / 2 ^ (x.exponent - 1) = 2 * t := by
      rw [zpow_sub_one₀ two_ne_zero]
      field_simp
    have hunits : x.units = 2 ^ 53 * 2 ^ (x.exponent - 1 + 1074).toNat := by
      rw [units, hsignificand,
        show (x.exponent + 1074).toNat = (x.exponent - 1 + 1074).toNat + 1 by omega]
      ring
    rw [hunits]
    apply roundedUnits_eq (by positivity) _ _ (by omega)
    · rw [hscale, abs_lt]
      push_cast
      constructor <;> linarith
    · rw [hscale]
      exact .inl (by linarith)
    · rw [hscale]
      linarith

/-- The nearer neighbour of a magnitude. -/
def nearer (x : Magnitude) (n : Nat) : Decimal :=
  x.gridPoint n (nearestInteger (x.onGrid n))

theorem nearer_mem_neighbours (hx : x.significand ≠ 0) (n : Nat) :
    x.nearer n ∈ x.neighbours n := by
  rw [mem_neighbours_iff, nearer]
  rcases nearestInteger_eq_floor_or (onGrid_pos hx n).le with h | h
  · exact .inl (by rw [h])
  · exact .inr (by rw [h])

/-- **Seventeen digits tell every magnitude.** -/
theorem readsBack_nearer (hx : x.significand ≠ 0) : x.readsBack (x.nearer 17) = true := by
  have hgrid := onGrid_pos hx 17
  have hunit : (0 : ℚ) < 10 ^ (x.point - 17) := by positivity
  have hvalue : x.value = x.onGrid 17 * 10 ^ (x.point - 17) := by
    rw [onGrid]
    push_cast
    field_simp
  have hdigits : (x.nearer 17).digits ≠ 0 := by
    have hmono := nearestInteger_mono (by positivity) (le_onGrid hx (n := 17) (by decide))
    have hcast : ((10 ^ 16 : Nat) : ℚ) = 10 ^ (17 - 1) := by push_cast; rfl
    rw [← hcast, nearestInteger_natCast] at hmono
    exact (Nat.pow_pos (by decide) : 0 < 10 ^ 16).trans_le hmono |>.ne'
  have hdistance := abs_nearestInteger_sub_le hgrid.le
  have hdecade := le_onGrid hx (n := 17) (by decide)
  rw [readsBack_iff hdigits]
  apply roundedUnits_of_near hx
  have hnearer : (x.nearer 17).value = nearestInteger (x.onGrid 17) * 10 ^ (x.point - 17) := rfl
  rw [hnearer, hvalue, ← sub_mul, abs_mul, abs_of_pos hunit, mul_div_right_comm]
  refine mul_le_mul_of_nonneg_right (hdistance.trans ?_) hunit.le
  rw [le_div_iff₀ (by positivity)]
  calc (1 / 2 : ℚ) * (2 * 10 ^ 16) = 10 ^ (17 - 1) := by norm_num
    _ ≤ x.onGrid 17 := hdecade

/-! ### The shortest decimal -/

/-- The shortest decimal is a neighbour on the first grid where one reads back. -/
theorem shortest_mem_neighbours (hx : x.significand ≠ 0) :
    ∃ n, 1 ≤ n ∧ n ≤ 17 ∧ x.shortest ∈ x.neighbours n ∧ x.readsBack x.shortest = true ∧
      ∀ k, 1 ≤ k → k < n → ∀ c ∈ x.neighbours k, ¬ x.readsBack c = true := by
  have hsome :
      ((List.range' 1 17).findSome? fun n => (x.neighbours n).find? x.readsBack).isSome := by
    rw [List.findSome?_isSome_iff]
    refine ⟨17, by decide, ?_⟩
    rw [List.find?_isSome]
    exact ⟨_, nearer_mem_neighbours hx 17, readsBack_nearer hx⟩
  obtain ⟨d, hd⟩ := Option.isSome_iff_exists.1 hsome
  have hshortest : x.shortest = d := by rw [shortest, hd, Option.getD_some]
  obtain ⟨before, n, after, hrange, hfound, hnone⟩ := List.findSome?_eq_some_iff.1 hd
  have hmem : n ∈ List.range' 1 17 := by simp [hrange]
  rw [List.mem_range'_1] at hmem
  rw [hshortest]
  refine ⟨n, hmem.1, by omega, List.mem_of_find?_eq_some hfound, List.find?_some hfound, ?_⟩
  intro k hk hlt c hc
  have hk : k ∈ before := by
    have hsorted : (List.range' 1 17).Pairwise (· < ·) := List.pairwise_lt_range'
    have hmem : k ∈ List.range' 1 17 := List.mem_range'_1.2 (by omega)
    rw [hrange] at hsorted hmem
    rcases List.mem_append.1 hmem with hbefore | hafter
    · exact hbefore
    · have hsorted := (List.pairwise_append.1 hsorted).2.1
      rcases List.mem_cons.1 hafter with rfl | hafter
      · omega
      · have hgt := List.rel_of_pairwise_cons hsorted hafter
        omega
  have hnone := List.find?_eq_none.1 (hnone k hk) c hc
  exact hnone

theorem readsBack_shortest (hx : x.significand ≠ 0) : x.readsBack x.shortest = true := by
  obtain ⟨-, -, -, -, hreads, -⟩ := shortest_mem_neighbours hx
  exact hreads

theorem shortest_digits_ne_zero (hx : x.significand ≠ 0) : x.shortest.digits ≠ 0 :=
  digits_ne_zero_of_readsBack hx (readsBack_shortest hx)

/-- Dropping the zeros at its end does not change what a decimal is read as. -/
theorem readsBack_toDigits : x.readsBack d.toDigits.toDecimal = x.readsBack d :=
  readsBack_congr d.value_toDigits

/-- **The shortest decimal is the shortest**: no decimal that reads back has fewer digits, … -/
theorem length_shortest_le (hx : x.significand ≠ 0) (h : x.readsBack d = true) :
    x.shortest.toDigits.digits.length ≤ d.toDigits.digits.length := by
  obtain ⟨n, hn, -, hmem, -, hfirst⟩ := shortest_mem_neighbours hx
  have hreduced := Decimal.isReduced_toDigits (digits_ne_zero_of_readsBack hx h)
  have hpos : 0 < d.toDigits.digits.length := List.length_pos_iff.2 hreduced.ne_nil
  have hcount : digitCount d.toDigits.toDecimal.digits ≤ d.toDigits.digits.length :=
    (digitCount_le_iff hpos).2 (ofDigitChars_lt hreduced.areDigits)
  obtain ⟨c, hc, hreads⟩ :=
    exists_neighbour_readsBack hx hcount (readsBack_toDigits.trans h)
  have hle : n ≤ d.toDigits.digits.length := by
    by_contra hlt
    exact hfirst _ hpos (not_le.1 hlt) c hc hreads
  exact (Decimal.length_toDigits_le hn (digits_neighbours_le hx hmem)).trans hle

/-- … and it has seventeen at most. -/
theorem length_shortest_le_seventeen (hx : x.significand ≠ 0) :
    x.shortest.toDigits.digits.length ≤ 17 := by
  obtain ⟨n, hn, hmax, hmem, -, -⟩ := shortest_mem_neighbours hx
  exact (Decimal.length_toDigits_le hn (digits_neighbours_le hx hmem)).trans hmax

/-- The fewest digits that are read as a magnitude. -/
structure AreShortest (x : Magnitude) (d : Digits) : Prop where
  isReduced : d.IsReduced
  readsBack : x.readsBack d.toDecimal = true
  length_le : ∀ c : Decimal, x.readsBack c = true → d.digits.length ≤ c.toDigits.digits.length

theorem areShortest_toDigits (hx : x.significand ≠ 0) : x.AreShortest x.shortest.toDigits where
  isReduced := Decimal.isReduced_toDigits (shortest_digits_ne_zero hx)
  readsBack := readsBack_toDigits.trans (readsBack_shortest hx)
  length_le _ := length_shortest_le hx

/-! ### Where the point is -/

/-- Whether a magnitude is below a decimal power of ten that is a magnitude itself, and whose text
is that power, is told by the point of its shortest decimal. -/
theorem lt_iff_point_shortest_le (hx : x.significand ≠ 0) {y : Magnitude} {e : ℤ}
    (hy : ofDecimal? 1 e = some y) (hpoint : y.shortest.toDigits.point = e + 1) :
    x.units < y.units ↔ x.shortest.toDigits.point ≤ e := by
  have hshortest := shortest_digits_ne_zero hx
  have hx' := (readsBack_iff hshortest).1 (readsBack_shortest hx)
  have hy' := (ofDecimal?_eq_some_iff (d := ⟨1, e⟩) Nat.one_ne_zero).1 hy
  obtain ⟨hlow, hhigh⟩ := Decimal.decade hshortest
  have hpower : (⟨1, e⟩ : Decimal).value = 10 ^ e := by simp [Decimal.value]
  rw [hpower] at hy'
  constructor
  · intro hlt
    by_contra hgt
    have hdecade : (10 : ℚ) ^ e ≤ 10 ^ (x.shortest.toDigits.point - 1) :=
      zpow_le_zpow_right₀ (by norm_num) (by omega)
    have hround := roundedUnits_mono (by positivity) (hdecade.trans hlow)
    omega
  · intro hle
    have hdecade : (10 : ℚ) ^ x.shortest.toDigits.point ≤ 10 ^ e :=
      zpow_le_zpow_right₀ (by norm_num) hle
    have hround := roundedUnits_mono (Decimal.value_pos hshortest) (hhigh.le.trans hdecade)
    -- the power itself has its point one place further
    have hne : x.units ≠ y.units := by
      intro heq
      rw [eq_of_units heq] at hle
      omega
    omega

end Magnitude

end StructuralEditor.Number
