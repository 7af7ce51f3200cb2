/-
StructuralEditor/Proofs/Notation.lean

The text of a number in a document is a matter of its shortest digits.

`Double.canonicalText` makes the text from the one used in messages, and decides
by comparing the double with a millionth and with `10^21` how to do it.  Here it
is shown to write the shortest digits in the layout `Layout.canonical`
(`canonicalText_eq_write`), as if the other text had never been there:

* the text used in messages is read back as its digits (`ofText?_write`);
* the two comparisons tell where the point is (`millionth_le_iff`,
  `lt_sextillion_iff`), because both bounds are the doubles that their powers of
  ten are read as;
* where the exponent is kept, only the zeros in front of it differ
  (`shortExponent_scientific`).
-/
import StructuralEditor.Data.Number
import StructuralEditor.Proofs.Spelling

namespace StructuralEditor.Number

-- the powers of the core library, whatever else is imported
attribute [local instance (2000)] instPowNat

/-! ### Reading digits off a text -/

/-- A spelling is a numeral of its decimal. -/
theorem Spelling.ofText?_chars (x : Spelling) :
    Decimal.ofText? x.chars = some (x.negative, x.toDecimal) := by
  rw [Decimal.ofText?, x.leading?_chars]
  simp only [toDecimal]
  rw [digitValues, digitValues, ← List.map_append, ← digitValues, natOfDigits_digitValues,
    List.length_map]

/-- The text in messages shows the shortest digits. -/
theorem ofText?_write (negative : Bool) {m : Magnitude} (hm : m.significand ≠ 0) :
    ∃ d, Decimal.ofText? (Layout.diagnostic.write (.finite negative m)).toList =
        some (negative, d) ∧ d.toDigits = m.shortest.toDigits := by
  obtain ⟨x, hchars, hnegative, -, hsaid⟩ :=
    Layout.diagnostic.exists_spelling (.inr rfl) negative hm
  refine ⟨x.toDecimal, ?_, x.toDigits_of_says hsaid ?_⟩
  · rw [hchars, String.toList_ofList, x.ofText?_chars, hnegative]
  · exact Decimal.isReduced_toDigits (Magnitude.shortest_digits_ne_zero hm)

/-! ### Digits around a point -/

/-- The two ways of setting digits around a point agree. -/
theorem Digits.expand_eq_positional {d : Digits} (hd : d.digits ≠ []) :
    d.expand = Layout.canonical.positional d := by
  obtain ⟨digits, point⟩ := d
  simp only [expand, Layout.positional] at hd ⊢
  have hlength : 0 < digits.length := List.length_pos_iff.2 hd
  by_cases hcount : (digits.length : Int) ≤ point
  · have htake : digits.take point.toNat = digits := List.take_of_length_le (by omega)
    have hdrop : digits.drop point.toNat = [] := List.drop_of_length_le (by omega)
    have hzeros : (-point).toNat = 0 := by omega
    rw [if_pos hcount]
    simp [htake, hdrop, hzeros, hd, Layout.canonical]
  · rw [if_neg hcount]
    by_cases hpoint : 0 < point
    · have hzeros : (-point).toNat = 0 := by omega
      have hnone : point.toNat - digits.length = 0 := by omega
      have hwhole : (digits.take point.toNat).isEmpty = false := by
        simp only [List.isEmpty_eq_false_iff_exists_mem, ← List.length_pos_iff_exists_mem,
          List.length_take]
        omega
      have hfraction : (digits.drop point.toNat).isEmpty = false := by
        simp only [List.isEmpty_eq_false_iff_exists_mem, ← List.length_pos_iff_exists_mem,
          List.length_drop]
        omega
      rw [if_pos hpoint]
      simp [hzeros, hnone, hwhole, hfraction]
    · have hwhole : point.toNat = 0 := by omega
      rw [if_neg hpoint]
      simp [hwhole, hd]

/-! ### Zeros in front of an exponent -/

/-- Every number has a digit, so nothing is filled up. -/
theorem Layout.padded_one (n : Nat) : Layout.padded 1 n = Nat.toDigits 10 n := by
  have hpos : 0 < (Nat.toDigits 10 n).length := Nat.length_toDigits_pos
  rw [Layout.padded, Nat.sub_eq_zero_of_le hpos, List.replicate_zero, List.nil_append]

namespace Notation

theorem dropZeros_toDigits (n : Nat) : dropZeros (Nat.toDigits 10 n) = Nat.toDigits 10 n := by
  by_cases hn : n = 0
  · subst hn
    rfl
  · obtain ⟨d, ds, hcons, hd⟩ := exists_toDigits_cons hn
    rw [hcons]
    unfold dropZeros
    split
    · next heq => exact absurd (List.cons.inj heq).1 hd
    · rfl

/-- Zeros that fill up a number are dropped again. -/
theorem dropZeros_padded (width n : Nat) :
    dropZeros (Layout.padded width n) = Nat.toDigits 10 n := by
  rw [Layout.padded]
  induction width - (Nat.toDigits 10 n).length with
  | zero => exact dropZeros_toDigits n
  | succ k ih =>
    obtain ⟨d, ds, hcons⟩ : ∃ d ds, List.replicate k '0' ++ Nat.toDigits 10 n = d :: ds :=
      List.exists_cons_of_ne_nil (by simp)
    rw [List.replicate_succ, List.cons_append, hcons, dropZeros, ← hcons, ih]

/-- What stands before the mark of the exponent stays. -/
theorem shortExponent_append {before : List Char} (hbefore : 'e' ∉ before) (sign : Char)
    (digits : List Char) :
    shortExponent (before ++ 'e' :: sign :: digits) =
      before ++ 'e' :: sign :: dropZeros digits := by
  induction before with
  | nil => rfl
  | cons c rest ih =>
    rw [List.mem_cons, not_or] at hbefore
    have hc : c ≠ 'e' := Ne.symm hbefore.1
    rw [List.cons_append, List.cons_append, ← ih hbefore.2]
    exact shortExponent.eq_2 _ _ (fun _ _ h _ => hc h)

/-- The exponent is all that tells the two layouts apart. -/
theorem shortExponent_scientific {d : Digits} (hd : AreDigits d.digits) (negative : Bool) :
    shortExponent ((if negative then ['-'] else []) ++ Layout.diagnostic.scientific d) =
      (if negative then ['-'] else []) ++ Layout.canonical.scientific d := by
  -- both begin with the same digits, and no digit is the mark of the exponent
  obtain ⟨mantissa, hmark, hlayout⟩ : ∃ mantissa, 'e' ∉ mantissa ∧
      ∀ style : Layout, style.scientific d = mantissa ++ 'e' ::
        (if d.point - 1 < 0 then '-' else '+') ::
          Layout.padded style.exponentWidth (d.point - 1).natAbs := by
    have hmark : 'e' ∉ d.digits := fun h => absurd (hd _ h) (by decide)
    simp only [Layout.scientific]
    generalize d.digits = digits at hmark
    rcases digits with - | ⟨first, - | ⟨second, rest⟩⟩
    · exact ⟨[], hmark, fun _ => rfl⟩
    · exact ⟨[first], hmark, fun _ => rfl⟩
    · exact ⟨first :: '.' :: second :: rest, by simpa using hmark, fun _ => rfl⟩
  have hbefore : 'e' ∉ (if negative then ['-'] else []) ++ mantissa := by
    cases negative <;> simpa using hmark
  rw [hlayout, hlayout, ← List.append_assoc, shortExponent_append hbefore, dropZeros_padded,
    List.append_assoc, Layout.canonical, Layout.padded_one]

end Notation

/-! ### Where the notation changes -/

namespace Magnitude

variable {m : Magnitude}

theorem millionth_le_iff (hm : m.significand ≠ 0) :
    millionth.units ≤ m.units ↔ -5 ≤ m.shortest.toDigits.point := by
  have hlt := lt_iff_point_shortest_le hm (y := millionth) (e := -6) (by decide +kernel)
    (by decide +kernel)
  omega

theorem lt_sextillion_iff (hm : m.significand ≠ 0) :
    m.units < sextillion.units ↔ m.shortest.toDigits.point ≤ 21 :=
  lt_iff_point_shortest_le hm (by decide +kernel) (by decide +kernel)

end Magnitude

/-! ### The text of a number -/

/-- **The text of a number is its shortest digits in the canonical layout.** -/
theorem canonicalText_eq_write (x : Double) : x.canonicalText = Layout.canonical.write x := by
  rcases x with - | negative | ⟨negative, m⟩
  · rfl
  · cases negative <;> rfl
  · by_cases hm : m.significand = 0
    · rw [Double.canonicalText_zero hm, Layout.write, Layout.unsigned, if_pos hm]
      simp [hm, Layout.canonical]
    · have hreduced := Decimal.isReduced_toDigits (Magnitude.shortest_digits_ne_zero hm)
      have hbounds := and_congr (Magnitude.millionth_le_iff hm) (Magnitude.lt_sextillion_iff hm)
      rw [Double.canonicalText, if_neg hm, Layout.canonical.write_finite negative hm]
      refine congrArg String.ofList ?_
      by_cases hpoint : -5 ≤ m.shortest.toDigits.point ∧ m.shortest.toDigits.point ≤ 21
      · obtain ⟨d, htext, hdigits⟩ := ofText?_write negative hm
        have hmagnitude : Layout.canonical.magnitude m =
            Layout.canonical.positional m.shortest.toDigits := if_pos hpoint
        rw [if_pos (hbounds.2 hpoint), Notation.fixed, htext, hmagnitude,
          ← Digits.expand_eq_positional hreduced.ne_nil, ← hdigits]
      · -- here the text in messages has an exponent too
        have hmagnitude : Layout.canonical.magnitude m =
            Layout.canonical.scientific m.shortest.toDigits := if_neg hpoint
        have hdiagnostic : Layout.diagnostic.magnitude m =
            Layout.diagnostic.scientific m.shortest.toDigits := by
          refine if_neg fun h => hpoint ?_
          simp only [Layout.diagnostic] at h
          omega
        rw [if_neg (mt hbounds.1 hpoint), Layout.write_finite _ _ hm, String.toList_ofList,
          hdiagnostic, hmagnitude, Notation.shortExponent_scientific hreduced.areDigits]

/-- The spelling of zero. -/
def Spelling.zero : Spelling :=
  ⟨false, ['0'], [], none, .replicate_zero 1, by simp, by simp, .nil, by simp⟩

/-- The canonical text of a finite double is a spelling, of at most twenty-one digits if it
is a whole one, and it says the shortest digits of the double. -/
theorem exists_spelling (negative : Bool) (m : Magnitude) :
    ∃ x : Spelling, (Double.finite negative m).canonicalText = String.ofList x.chars ∧
      (x.isWhole = true → x.whole.length ≤ 21) ∧
        (m.significand ≠ 0 → x.negative = negative ∧ x.Says m.shortest.toDigits) := by
  by_cases hm : m.significand = 0
  · refine ⟨.zero, ?_, fun _ => by decide, fun hne => absurd hm hne⟩
    rw [Double.canonicalText_zero hm]
    rfl
  · obtain ⟨x, hchars, hnegative, hlength, hsaid⟩ :=
      Layout.canonical.exists_spelling (.inl rfl) negative hm
    refine ⟨x, ?_, fun hwhole => ?_, fun _ => ⟨hnegative, hsaid⟩⟩
    · rw [canonicalText_eq_write, hchars]
    · have hlast : (x.whole.length : Int) ≤ 21 := hlength hwhole
      omega

/-! ### The cases of the text -/

/-- How digits `d₁…dₖ` around a point at place `n` are written. -/
structure Digits.IsWrittenAs (d : Digits) (text : List Char) : Prop where
  /-- A whole number is filled up with zeros. -/
  whole : (d.digits.length : Int) ≤ d.point → d.point ≤ 21 →
    text = d.digits ++ List.replicate (d.point - d.digits.length).toNat '0'
  /-- The point stands between two digits … -/
  between : 0 < d.point → d.point < d.digits.length →
    text = d.digits.take d.point.toNat ++ '.' :: d.digits.drop d.point.toNat
  /-- … or in front of them all, with at most five zeros behind it. -/
  before : -6 < d.point → d.point ≤ 0 →
    text = '0' :: '.' :: List.replicate (-d.point).toNat '0' ++ d.digits
  /-- Otherwise the point stands behind the first digit and an exponent follows. -/
  scientific : ¬ (d.digits.length ≤ d.point ∧ d.point ≤ 21) →
    ¬ (0 < d.point ∧ d.point < d.digits.length) → ¬ (-6 < d.point ∧ d.point ≤ 0) →
    text = d.digits.take 1 ++ (if 1 < d.digits.length then '.' :: d.digits.drop 1 else []) ++
      'e' :: (if d.point - 1 < 0 then '-' else '+') :: Nat.toDigits 10 (d.point - 1).natAbs

/-- The canonical layout is the one of these cases. -/
theorem Magnitude.isWrittenAs_canonical {m : Magnitude} (hm : m.significand ≠ 0) :
    m.shortest.toDigits.IsWrittenAs (Layout.canonical.magnitude m) := by
  have hreduced := Decimal.isReduced_toDigits (shortest_digits_ne_zero hm)
  have hpos : 0 < m.shortest.toDigits.digits.length := List.length_pos_iff.2 hreduced.ne_nil
  have hpositional (h : -5 ≤ m.shortest.toDigits.point ∧ m.shortest.toDigits.point ≤ 21) :
      Layout.canonical.magnitude m = Layout.canonical.positional m.shortest.toDigits := if_pos h
  have hscientific (h : ¬ (-5 ≤ m.shortest.toDigits.point ∧ m.shortest.toDigits.point ≤ 21)) :
      Layout.canonical.magnitude m = Layout.canonical.scientific m.shortest.toDigits := if_neg h
  -- with seventeen digits at most, a point between two of them is not beyond the bounds
  have hlength := length_shortest_le_seventeen hm
  generalize m.shortest.toDigits = d at *
  constructor
  · intro hcount hlast
    rw [hpositional (by omega), Layout.positional, if_pos hcount,
      show d.point.toNat - d.digits.length = (d.point - d.digits.length).toNat by omega]
    simp [Layout.canonical]
  · intro hfirst hcount
    rw [hpositional (by omega), Layout.positional, if_neg (by omega), if_pos hfirst]
  · intro hfirst hlast
    rw [hpositional (by omega), Layout.positional, if_neg (by omega), if_neg (by omega)]
  · intro hwhole hbetween hbefore
    have hwidth : Layout.canonical.exponentWidth = 1 := rfl
    rw [hscientific (by omega), Layout.scientific, hwidth, Layout.padded_one]
    rcases hdigits : d.digits with - | ⟨first, - | ⟨second, rest⟩⟩
    · exact absurd hdigits hreduced.ne_nil
    · rfl
    · simp

/-- The least magnitude but zero. -/
def Magnitude.least : Magnitude :=
  ⟨1, -1074, by decide⟩

/-- **The text of a number by its digits.**  The text that a double other than zero has in messages
is a numeral of its sign and of its shortest digits, and its canonical text writes these around
their point or with an exponent.  Both zeros have the text of zero, and what is no finite number,
or is an integer that is rounded to `2 ^ 1024` or more, has the text of its name. -/
theorem numberText_by_digits :
    (∀ (negative : Bool) (m : Magnitude), m.significand ≠ 0 →
      ∃ (d : Decimal) (text : List Char),
        Decimal.ofText? (Data.decimal (.finite negative m)).literal.toList = some (negative, d) ∧
          m.AreShortest d.toDigits ∧ d.toDigits.IsWrittenAs text ∧
          Data.numberText (.decimal (.finite negative m)) =
            .ok (String.ofList ((if negative then ['-'] else []) ++ text))) ∧
    (∀ negative, Data.numberText (.decimal (.finite negative 0)) = .ok "0") ∧
    Data.numberText (.decimal .notANumber) = .ok "NaN" ∧
    (∀ negative, Data.numberText (.decimal (.infinite negative)) =
      .ok (if negative then "-Infinity" else "Infinity")) ∧
    (∀ i : Int, Magnitude.overflow ≤ i.natAbs →
      Data.numberText (.integer i) = .ok (if i < 0 then "-Infinity" else "Infinity")) ∧
    ∀ i : Int, i.natAbs < Magnitude.overflow →
      ∃ x, Double.ofInt? i = some x ∧ Data.numberText (.integer i) = .ok x.canonicalText := by
  refine ⟨?_, ?_, rfl, fun _ => rfl, ?_, ?_⟩
  · intro negative m hm
    obtain ⟨d, hread, hdigits⟩ := ofText?_write negative hm
    refine ⟨d, Layout.canonical.magnitude m, hread, ?_, ?_, ?_⟩
    · rw [hdigits]
      exact Magnitude.areShortest_toDigits hm
    · rw [hdigits]
      exact Magnitude.isWrittenAs_canonical hm
    · rw [Data.numberText, canonicalText_eq_write, Layout.write_finite _ _ hm]
  · intro negative
    exact congrArg Except.ok (Double.canonicalText_zero rfl)
  · intro i hi
    rw [Data.numberText, Double.ofInt, Magnitude.ofRatio?_one_eq_none_iff.2 hi]
    by_cases hneg : i < 0 <;> simp [Double.ofMagnitude, Double.canonicalText, hneg]
  · intro i hi
    obtain ⟨m, hm⟩ : ∃ m, Magnitude.ofRatio? i.natAbs 1 = some m :=
      Option.ne_none_iff_exists'.1 (mt Magnitude.ofRatio?_one_eq_none_iff.1 (Nat.not_le.2 hi))
    refine ⟨.finite (i < 0) m, ?_, ?_⟩
    · rw [Double.ofInt?, hm, Option.map_some]
    · rw [Data.numberText, Double.ofInt, hm]
      rfl

/-- At the negative double next to zero, beyond the greatest double and at an integer. -/
theorem numberText_by_digits_at_bounds :
    (Data.numberText (.decimal (.finite true Magnitude.least)) = .ok "-5e-324" ∧
      ∃ (d : Decimal) (text : List Char),
        Decimal.ofText? (Data.decimal (.finite true Magnitude.least)).literal.toList =
            some (true, d) ∧
          Magnitude.least.AreShortest d.toDigits ∧ d.toDigits.IsWrittenAs text ∧
          Data.numberText (.decimal (.finite true Magnitude.least)) =
            .ok (String.ofList ((if true then ['-'] else []) ++ text))) ∧
    (Magnitude.overflow ≤ (-Magnitude.overflow : Int).natAbs ∧
      Data.numberText (.integer (-Magnitude.overflow)) = .ok "-Infinity") ∧
    ((3 : Int).natAbs < Magnitude.overflow ∧
      ∃ x, Double.ofInt? 3 = some x ∧ Data.numberText (.integer 3) = .ok x.canonicalText) := by
  have hoverflow : Magnitude.overflow ≤ (-Magnitude.overflow : Int).natAbs := by decide +kernel
  have hthree : (3 : Int).natAbs < Magnitude.overflow := by decide +kernel
  obtain ⟨hdigits, -, -, -, hlarge, hsmall⟩ := numberText_by_digits
  refine ⟨⟨by decide +kernel, hdigits true Magnitude.least (by decide)⟩,
    ⟨hoverflow, ?_⟩, hthree, hsmall 3 hthree⟩
  rw [hlarge _ hoverflow, if_pos (by decide +kernel)]

end StructuralEditor.Number
