/-
StructuralEditor/Proofs/Spelling.lean

Plain spellings of numbers, and how they are read.

A spelling is a sign, digits, digits after a point and an exponent, in which
only ASCII digits occur and no zero is put in front.  What a spelling is read as
is a matter of its parts alone (`leading?_chars`, `ofLeading_chars`), so two
readers that take it apart in the same way agree.

Every layout writes the finite doubles as spellings of their shortest digits
(`Layout.exists_spelling`), up to zeros at the end (`Spelling.Says`).  Such zeros
may be counted with the exponent instead, so a spelling of the shortest digits is
read as the double (`Spelling.value_of_said`).
-/
import StructuralEditor.Number.Canonical
import StructuralEditor.Proofs.Shortest

namespace StructuralEditor.Number

open Text

-- the powers of the core library, whatever else is imported
attribute [local instance (2000)] instPowNat

/-! ### Digits at the front of a text -/

theorem digitValue?_of_isDigit {c : Char} (h : c.isDigit = true) :
    digitValue? c = some (c.toNat - '0'.toNat) :=
  of_isDigit (fun c => digitValue? c = some (c.toNat - '0'.toNat)) (by decide) h

theorem isDecimalDigit_of_isDigit {c : Char} (h : c.isDigit = true) : isDecimalDigit c = true := by
  rw [isDecimalDigit, digitValue?_of_isDigit h, Option.isSome_some]

/-- The values of digits. -/
def digitValues (ds : List Char) : List Nat :=
  ds.map fun d => d.toNat - '0'.toNat

theorem natOfDigits_digitValues (ds : List Char) :
    natOfDigits (digitValues ds) = Nat.ofDigitChars 10 ds 0 := by
  rw [natOfDigits, digitValues, List.foldl_map, Nat.ofDigitChars_eq_foldl]

/-- Leading digits end where something else than a digit follows. -/
theorem leadingDigits_append {ds rest : List Char} (hds : AreDigits ds)
    (hrest : ∀ c ∈ rest.head?, isDecimalDigit c = false) :
    Numeral.leadingDigits (ds ++ rest) = (digitValues ds, rest) := by
  have hall : ∀ c ∈ ds, isDecimalDigit c = true := by
    intro c hc
    exact isDecimalDigit_of_isDigit (hds c hc)
  have hvalues : ds.filterMap digitValue? = digitValues ds := by
    clear hall
    induction ds with
    | nil => rfl
    | cons d ds ih =>
      rw [List.filterMap_cons_some (digitValue?_of_isDigit (hds d (by simp))),
        ih (hds.mono (List.subset_cons_self ..))]
      rfl
  have htake : rest.takeWhile isDecimalDigit = [] := by
    cases rest with
    | nil => rfl
    | cons c cs => simp [hrest c rfl]
  have hdrop : rest.dropWhile isDecimalDigit = rest := by
    cases rest with
    | nil => rfl
    | cons c cs => simp [hrest c rfl]
  rw [Numeral.leadingDigits, List.takeWhile_append_of_pos hall, List.dropWhile_append_of_pos hall,
    htake, hdrop, List.append_nil, hvalues]

/-! ### Spellings -/

/-- The parts of a plain numeral.  An exponent has a sign and digits. -/
structure Spelling where
  negative : Bool
  whole : List Char
  fraction : List Char
  exponent? : Option (Bool × List Char)
  whole_digits : AreDigits whole
  whole_ne_nil : whole ≠ []
  /-- A zero in front stands alone. -/
  whole_zero : whole.head? = some '0' → whole = ['0']
  fraction_digits : AreDigits fraction
  exponent_digits : ∀ e ∈ exponent?, AreDigits e.2 ∧ e.2 ≠ []

namespace Spelling

variable (x : Spelling)

/-- The fraction after its point. -/
def pointed : List Char :=
  if x.fraction.isEmpty then [] else '.' :: x.fraction

/-- The exponent after its mark. -/
def marked : List Char :=
  match x.exponent? with
  | none => []
  | some (negative, digits) => 'e' :: (if negative then '-' else '+') :: digits

/-- The spelling without its sign. -/
def unsigned : List Char :=
  x.whole ++ (x.pointed ++ x.marked)

/-- The spelling. -/
def chars : List Char :=
  if x.negative then '-' :: x.unsigned else x.unsigned

/-- The power of ten that the exponent says. -/
def power : Int :=
  match x.exponent? with
  | none => 0
  | some (negative, digits) =>
    let size : Int := Nat.ofDigitChars 10 digits 0
    if negative then -size else size

/-- The double that is spelled. -/
def value : Double :=
  .ofDecimal x.negative (Nat.ofDigitChars 10 (x.whole ++ x.fraction) 0)
    (x.power - x.fraction.length)

/-- The decimal that is spelled, without its sign. -/
def toDecimal : Decimal :=
  ⟨Nat.ofDigitChars 10 (x.whole ++ x.fraction) 0, x.power - x.fraction.length⟩

theorem value_eq : x.value = .ofDecimal x.negative x.toDecimal.digits x.toDecimal.exponent :=
  rfl

/-- Whether there is neither a fraction nor an exponent. -/
def isWhole : Bool :=
  x.fraction.isEmpty && x.exponent?.isNone

theorem exists_whole_cons : ∃ d ds, x.whole = d :: ds ∧ d.isDigit = true := by
  obtain ⟨d, ds, h⟩ := List.exists_cons_of_ne_nil x.whole_ne_nil
  exact ⟨d, ds, h, x.whole_digits d (by simp [h])⟩

/-- Without its sign, a spelling begins with a digit. -/
theorem exists_unsigned_cons : ∃ d cs, x.unsigned = d :: cs ∧ d.isDigit = true := by
  obtain ⟨d, ds, h, hd⟩ := x.exists_whole_cons
  exact ⟨d, ds ++ (x.pointed ++ x.marked), by rw [unsigned, h, List.cons_append], hd⟩

/-- A spelling has nothing but digits, signs, a point and the mark of an exponent. -/
theorem mem_chars {x : Spelling} {c : Char} (hc : c ∈ x.chars) :
    c.isDigit = true ∨ c ∈ ['-', '+', '.', 'e'] := by
  have hwhole := x.whole_digits c
  have hpointed : c ∈ x.pointed → c.isDigit = true ∨ c = '.' := by
    have hfraction := x.fraction_digits c
    unfold pointed
    split_ifs <;> grind
  have hmarked : c ∈ x.marked → c.isDigit = true ∨ c ∈ ['-', '+', 'e'] := by
    unfold marked
    rcases hexponent : x.exponent? with - | ⟨negative, digits⟩
    · simp
    · have hdigits := (x.exponent_digits _ hexponent).1 c
      grind
  unfold chars unsigned at hc
  grind

/-! ### Reading a spelling as a leading numeral -/

theorem leadingSign_chars : Numeral.leadingSign x.chars = (x.negative, x.unsigned) := by
  unfold chars
  cases x.negative with
  | true => rfl
  | false =>
    obtain ⟨d, cs, h, hd⟩ := x.exists_unsigned_cons
    -- a digit is no sign
    have hsign := of_isDigit (fun d => d ≠ '-' ∧ d ≠ '+') (by decide) hd
    simp only [h, Bool.false_eq_true, if_false]
    unfold Numeral.leadingSign
    split
    · next heq => exact absurd (List.cons.inj heq).1 hsign.1
    · next heq => exact absurd (List.cons.inj heq).1 hsign.2
    · rfl

theorem leadingMantissa?_unsigned :
    Numeral.leadingMantissa? x.unsigned =
      some (digitValues x.whole, digitValues x.fraction, x.marked) := by
  have hmarked : ∀ c ∈ x.marked.head?, c = 'e' := by
    unfold marked
    split <;> simp
  have hmarked' : ∀ c ∈ x.marked.head?, isDecimalDigit c = false := by
    intro c hc
    rw [hmarked c hc]
    decide
  have hwhole : (digitValues x.whole).isEmpty = false := by
    simpa [digitValues] using x.whole_ne_nil
  rcases hfraction : x.fraction with - | ⟨d, ds⟩
  · have hpointed : x.pointed = [] := by simp [pointed, hfraction]
    rw [unsigned, hpointed, List.nil_append, Numeral.leadingMantissa?,
      leadingDigits_append x.whole_digits hmarked']
    simp only
    -- what follows the digits is the mark of the exponent, and not a point
    split
    · next heq => exact absurd (hmarked '.' (by rw [heq]; rfl)) (by decide)
    · rw [hwhole]
      rfl
  · have hpointed : x.pointed = '.' :: x.fraction := by simp [pointed, hfraction]
    rw [← hfraction, unsigned, hpointed, Numeral.leadingMantissa?,
      leadingDigits_append x.whole_digits (by simp; decide)]
    simp only [List.cons_append]
    rw [leadingDigits_append x.fraction_digits hmarked']
    simp [hwhole]

theorem leadingExponent_marked : Numeral.leadingExponent x.marked = (x.power, []) := by
  unfold marked power
  rcases hexponent : x.exponent? with - | ⟨negative, digits⟩
  · rfl
  · obtain ⟨hdigits, hne⟩ := x.exponent_digits _ hexponent
    obtain ⟨d, ds, rfl⟩ := List.exists_cons_of_ne_nil hne
    have hread : Numeral.leadingDigits (d :: ds) = (digitValues (d :: ds), []) := by
      have hread := @leadingDigits_append _ [] hdigits (by simp)
      rwa [List.append_nil] at hread
    cases negative <;>
      simp [Numeral.leadingExponent, Numeral.leadingSign, hread, ← natOfDigits_digitValues,
        digitValues]

/-- A spelling is a numeral of the same parts, and nothing is left over. -/
theorem leading?_chars : Numeral.leading? x.chars =
    some (.decimal x.negative (digitValues x.whole) (digitValues x.fraction) x.power, []) := by
  have hinfinity : Numeral.infinityName.isPrefixOf x.unsigned = false := by
    obtain ⟨d, cs, h, hd⟩ := x.exists_unsigned_cons
    have hne := of_isDigit (fun d => ('I' == d) = false) (by decide) hd
    simp only [h, Numeral.infinityName, List.isPrefixOf, hne, Bool.false_and]
  rw [Numeral.leading?, x.leadingSign_chars]
  simp [hinfinity, x.leadingMantissa?_unsigned, x.leadingExponent_marked]

/-- **A spelling is read as what it spells.** -/
theorem ofLeading_chars : Double.ofLeading (String.ofList x.chars) = x.value := by
  have hblank : x.chars.dropWhile isBlank = x.chars := by
    obtain ⟨d, cs, h, hd⟩ := x.exists_unsigned_cons
    have hd := of_isDigit (isBlank · = false) (by decide) hd
    unfold chars
    cases x.negative with
    | true => simp [show isBlank '-' = false by decide]
    | false => simp [h, hd]
  rw [Double.ofLeading, String.toList_ofList, hblank, x.leading?_chars]
  simp only [Numeral.value, value]
  rw [digitValues, digitValues, ← List.map_append, ← digitValues, natOfDigits_digitValues,
    List.length_map]

end Spelling

/-! ### Whole numbers -/

/-- The integer that the digits before the point say. -/
def Spelling.integer (x : Spelling) : Int :=
  let size : Int := Nat.ofDigitChars 10 x.whole 0
  if x.negative then -size else size

/-- A whole spelling has the canonical text of its integer.  The doubles may differ
in the sign of a zero. -/
theorem Spelling.canonicalText_ofInt (x : Spelling) (hwhole : x.isWhole = true) :
    (Double.ofInt x.integer).canonicalText = x.value.canonicalText := by
  have hfraction : x.fraction = [] := by
    simp only [isWhole, Bool.and_eq_true, List.isEmpty_iff] at hwhole
    exact hwhole.1
  have hpower : x.power = 0 := by
    simp only [isWhole, Bool.and_eq_true, Option.isNone_iff_eq_none] at hwhole
    rw [power, hwhole.2]
  rw [value, hfraction, hpower, List.append_nil, Double.ofDecimal, Double.ofInt, integer]
  simp only [List.length_nil]
  generalize Nat.ofDigitChars 10 x.whole 0 = n
  have hread : Magnitude.ofDecimal? n (0 - ((0 : Nat) : Int)) = Magnitude.ofRatio? n 1 := by
    rw [Magnitude.ofDecimal?_eq_ofRatio? ⟨n, 0 - ((0 : Nat) : Int)⟩]
    simp
  rw [hread]
  -- the sign of the integer is the sign of the spelling, except for zero
  by_cases hn : n = 0
  · have hzero (negative : Bool) :
        (Double.ofMagnitude negative (Magnitude.ofRatio? 0 1)).canonicalText = "0" :=
      Double.canonicalText_zero rfl
    subst hn
    cases x.negative <;> exact (hzero _).trans (hzero _).symm
  · cases x.negative with
    | true =>
      rw [if_pos rfl, Int.natAbs_neg, Int.natAbs_natCast, decide_eq_true (by omega)]
    | false =>
      rw [if_neg (by decide), Int.natAbs_natCast, decide_eq_false (by omega)]

/-! ### Layouts are spellings -/

/-- Whether a spelling says the number of the digits, up to the zeros that it
puts at their end. -/
def Spelling.Says (x : Spelling) (d : Digits) : Prop :=
  ∃ zeros : Nat,
    Nat.ofDigitChars 10 (x.whole ++ x.fraction) 0 = Nat.ofDigitChars 10 d.digits 0 * 10 ^ zeros ∧
      x.power - x.fraction.length + zeros = d.point - d.digits.length

/-- Reduced digits that a spelling says are the digits of its decimal. -/
theorem Spelling.toDigits_of_says {x : Spelling} {d : Digits} (h : x.Says d) (hd : d.IsReduced) :
    x.toDecimal.toDigits = d := by
  obtain ⟨zeros, hnumber, hscale⟩ := h
  have hnumber : x.toDecimal.digits = d.toDecimal.digits * 10 ^ zeros := hnumber
  have hscale : x.toDecimal.exponent + zeros = d.toDecimal.exponent := hscale
  calc x.toDecimal.toDigits
      = (⟨d.toDecimal.digits * 10 ^ zeros, x.toDecimal.exponent⟩ : Decimal).toDigits := by
        rw [← hnumber]
    _ = d.toDecimal.toDigits := by
        rw [Decimal.toDigits_shift hd.digits_toDecimal_ne_zero, hscale]
    _ = d := hd.toDigits_toDecimal

/-- A spelling of the shortest digits of a magnitude spells that magnitude. -/
theorem Spelling.value_of_said {x : Spelling} {m : Magnitude} (hm : m.significand ≠ 0)
    (hsaid : x.Says m.shortest.toDigits) : x.value = .finite x.negative m := by
  have hreduced := Decimal.isReduced_toDigits (Magnitude.shortest_digits_ne_zero hm)
  have hreads : m.readsBack x.toDecimal = true := by
    rw [← Magnitude.readsBack_toDigits, x.toDigits_of_says hsaid hreduced,
      Magnitude.readsBack_toDigits]
    exact Magnitude.readsBack_shortest hm
  rw [Spelling.value_eq, Double.ofDecimal, eq_of_beq hreads]
  rfl

section

variable {d : Digits} {first : Char} {rest : List Char}

/-- Digits that end before the point, with zeros up to it and perhaps one behind it. -/
theorem exists_spelling_whole {suffix : String} (hsuffix : suffix = "" ∨ suffix = ".0")
    (negative : Bool) (hdigits : d.digits = first :: rest) (hall : AreDigits (first :: rest))
    (hfirst : first ≠ '0') (hcount : ((first :: rest).length : Int) ≤ d.point) :
    ∃ x : Spelling, x.negative = negative ∧
      x.unsigned = (first :: rest) ++
        List.replicate (d.point.toNat - (first :: rest).length) '0' ++ suffix.toList ∧
      (x.whole.length : Int) = d.point ∧ x.Says d := by
  let fraction := suffix.toList.drop 1
  have hfraction : fraction = [] ∧ suffix.toList = [] ∨
      fraction = ['0'] ∧ suffix.toList = '.' :: ['0'] := by
    rcases hsuffix with h | h
    · exact .inl ⟨by simp [fraction, h], by simp [h]⟩
    · exact .inr ⟨by simp [fraction, h], by simp [h]⟩
  have hzero : fraction = List.replicate fraction.length '0' := by
    rcases hfraction with ⟨h, -⟩ | ⟨h, -⟩ <;> rw [h] <;> rfl
  let x : Spelling := {
    negative
    whole := (first :: rest) ++ List.replicate (d.point.toNat - (first :: rest).length) '0'
    fraction := fraction
    exponent? := none
    whole_digits := hall.append (.replicate_zero _)
    whole_ne_nil := by simp
    whole_zero := by simp [hfirst]
    fraction_digits := hzero ▸ .replicate_zero _
    exponent_digits := by simp }
  refine ⟨x, rfl, ?_, ?_, d.point.toNat - (first :: rest).length + fraction.length, ?_, ?_⟩
  · rcases hfraction with ⟨h, hsuffix⟩ | ⟨h, hsuffix⟩ <;>
      simp [x, Spelling.unsigned, Spelling.pointed, Spelling.marked, h, hsuffix]
  · simp only [x, List.length_append, List.length_replicate]
    omega
  · simp only [x]
    rw [hzero, List.append_assoc, List.replicate_append_replicate, ofDigitChars_append_zeros,
      hdigits, List.length_replicate]
  · simp only [x, Spelling.power, hdigits]
    omega

/-- Digits with the point between two of them. -/
theorem exists_spelling_between (negative : Bool) (hdigits : d.digits = first :: rest)
    (hall : AreDigits (first :: rest)) (hfirst : first ≠ '0')
    (hcount : d.point < ((first :: rest).length : Int)) (hpoint : 0 < d.point) :
    ∃ x : Spelling, x.negative = negative ∧
      x.unsigned = (first :: rest).take d.point.toNat ++
        '.' :: (first :: rest).drop d.point.toNat ∧
      x.isWhole = false ∧ x.Says d := by
  obtain ⟨n, hn⟩ : ∃ n, d.point.toNat = n + 1 := ⟨d.point.toNat - 1, by omega⟩
  have hlt : n < rest.length := by
    simp only [List.length_cons] at hcount
    omega
  rw [hn, List.take_succ_cons, List.drop_succ_cons]
  let x : Spelling := {
    negative
    whole := first :: rest.take n
    fraction := rest.drop n
    exponent? := none
    whole_digits := hall.mono (List.cons_subset_cons _ (List.take_subset _ _))
    whole_ne_nil := by simp
    whole_zero := by simp [hfirst]
    fraction_digits := hall.mono fun _ hc => List.mem_cons_of_mem _ (List.mem_of_mem_drop hc)
    exponent_digits := by simp }
  refine ⟨x, rfl, ?_, ?_, 0, ?_, ?_⟩
  · simp [x, Spelling.unsigned, Spelling.pointed, Spelling.marked, hlt]
  · simp [x, Spelling.isWhole, hlt]
  · simp only [x, List.cons_append, List.take_append_drop, hdigits, Nat.pow_zero, Nat.mul_one]
  · simp only [x, Spelling.power, List.length_drop, List.length_cons, hdigits]
    omega

/-- Digits behind the point, with zeros up to them. -/
theorem exists_spelling_behind (negative : Bool) (hdigits : d.digits = first :: rest)
    (hall : AreDigits (first :: rest)) (hpoint : d.point ≤ 0) :
    ∃ x : Spelling, x.negative = negative ∧
      x.unsigned = '0' :: '.' :: List.replicate (-d.point).toNat '0' ++ (first :: rest) ∧
      x.isWhole = false ∧ x.Says d := by
  let x : Spelling := {
    negative
    whole := ['0']
    fraction := List.replicate (-d.point).toNat '0' ++ (first :: rest)
    exponent? := none
    whole_digits := .replicate_zero 1
    whole_ne_nil := by simp
    whole_zero := by simp
    fraction_digits := (AreDigits.replicate_zero _).append hall
    exponent_digits := by simp }
  refine ⟨x, rfl, ?_, ?_, 0, ?_, ?_⟩
  · simp [x, Spelling.unsigned, Spelling.pointed, Spelling.marked]
  · simp [x, Spelling.isWhole]
  · rw [hdigits, Nat.pow_zero, Nat.mul_one]
    exact ofDigitChars_zeros_append (_ + 1) _
  · simp only [x, Spelling.power, List.length_append, List.length_replicate, List.length_cons,
      hdigits]
    omega

/-- The spelling of digits around a point, in which a zero stands in front only
if nothing else does. -/
theorem exists_spelling_positional (style : Layout)
    (hsuffix : style.wholeSuffix = "" ∨ style.wholeSuffix = ".0") (negative : Bool)
    (hdigits : d.digits = first :: rest) (hall : AreDigits (first :: rest))
    (hfirst : first ≠ '0') :
    ∃ x : Spelling, x.negative = negative ∧ x.unsigned = style.positional d ∧
      (x.isWhole = true → (x.whole.length : Int) = d.point) ∧ x.Says d := by
  unfold Layout.positional
  simp only [hdigits]
  split
  · next hcount =>
    obtain ⟨x, hnegative, hunsigned, hlength, hsays⟩ :=
      exists_spelling_whole hsuffix negative hdigits hall hfirst hcount
    exact ⟨x, hnegative, hunsigned, fun _ => hlength, hsays⟩
  · next hcount =>
    split
    · next hpoint =>
      obtain ⟨x, hnegative, hunsigned, hwhole, hsays⟩ :=
        exists_spelling_between negative hdigits hall hfirst (by omega) hpoint
      exact ⟨x, hnegative, hunsigned, by simp [hwhole], hsays⟩
    · next hpoint =>
      obtain ⟨x, hnegative, hunsigned, hwhole, hsays⟩ :=
        exists_spelling_behind negative hdigits hall (by omega)
      exact ⟨x, hnegative, hunsigned, by simp [hwhole], hsays⟩

/-- The spelling with an exponent. -/
theorem exists_spelling_scientific (style : Layout) (negative : Bool)
    (hdigits : d.digits = first :: rest) (hall : AreDigits (first :: rest))
    (hfirst : first ≠ '0') :
    ∃ x : Spelling, x.negative = negative ∧ x.unsigned = style.scientific d ∧
      x.isWhole = false ∧ x.Says d := by
  have hpadded (n : Nat) : AreDigits (Layout.padded style.exponentWidth n) ∧
      Layout.padded style.exponentWidth n ≠ [] :=
    ⟨(AreDigits.replicate_zero _).append (.toDigits n), by simp [Layout.padded]⟩
  let x : Spelling := {
    negative
    whole := [first]
    fraction := rest
    exponent? := some
      (decide (d.point - 1 < 0), Layout.padded style.exponentWidth (d.point - 1).natAbs)
    whole_digits := hall.mono (by simp)
    whole_ne_nil := by simp
    whole_zero := by simp [hfirst]
    fraction_digits := hall.mono (List.subset_cons_self ..)
    exponent_digits := by
      intro e he
      obtain rfl := Option.some.inj he
      exact hpadded _ }
  have hpower : x.power = d.point - 1 := by
    simp only [x, Spelling.power, Layout.padded, ofDigitChars_zeros_append,
      Nat.ofDigitChars_ten_toDigits, decide_eq_true_eq]
    split <;> omega
  refine ⟨x, rfl, ?_, ?_, 0, ?_, ?_⟩
  · cases rest <;>
      simp [x, Spelling.unsigned, Spelling.pointed, Spelling.marked, Layout.scientific, hdigits]
  · simp [x, Spelling.isWhole]
  · simp only [x, List.singleton_append, hdigits, Nat.pow_zero, Nat.mul_one]
  · simp only [hpower, x, List.length_cons, hdigits]
    omega

end

/-- The text of a finite double other than zero. -/
theorem Layout.write_finite (style : Layout) (negative : Bool) {m : Magnitude}
    (hm : m.significand ≠ 0) : style.write (.finite negative m) =
      String.ofList ((if negative then ['-'] else []) ++ style.magnitude m) := by
  rw [Layout.write, Layout.unsigned]
  simp [hm]

/-- **The text of a finite double is a spelling** of its shortest digits, unless it is zero. -/
theorem Layout.exists_spelling (style : Layout)
    (hsuffix : style.wholeSuffix = "" ∨ style.wholeSuffix = ".0") (negative : Bool)
    {m : Magnitude} (hm : m.significand ≠ 0) :
    ∃ x : Spelling, style.write (.finite negative m) = String.ofList x.chars ∧
      x.negative = negative ∧ (x.isWhole = true → (x.whole.length : Int) ≤ style.lastPoint) ∧
        x.Says m.shortest.toDigits := by
  obtain ⟨first, rest, hdigits, hall, hfirst⟩ :=
    Decimal.toDigits_cons (Magnitude.shortest_digits_ne_zero hm)
  obtain ⟨x, hnegative, hunsigned, hlength, hsaid⟩ : ∃ x : Spelling, x.negative = negative ∧
      x.unsigned = style.magnitude m ∧
        (x.isWhole = true → (x.whole.length : Int) ≤ style.lastPoint) ∧
          x.Says m.shortest.toDigits := by
    rw [Layout.magnitude]
    split
    · next hpoint =>
      obtain ⟨x, hnegative, hunsigned, hlength, hsaid⟩ :=
        exists_spelling_positional style hsuffix negative hdigits hall hfirst
      refine ⟨x, hnegative, hunsigned, fun hwhole => ?_, hsaid⟩
      rw [hlength hwhole]
      exact hpoint.2
    · obtain ⟨x, hnegative, hunsigned, hwhole, hsaid⟩ :=
        exists_spelling_scientific style negative hdigits hall hfirst
      exact ⟨x, hnegative, hunsigned, by simp [hwhole], hsaid⟩
  refine ⟨x, ?_, hnegative, hlength, hsaid⟩
  rw [Layout.write_finite style negative hm]
  simp only [Spelling.chars, hnegative, hunsigned]
  cases negative <;>
    simp only [Bool.false_eq_true, if_false, if_true, List.nil_append, List.cons_append]

end StructuralEditor.Number
