/-
StructuralEditor/Proofs/Canonicity.lean

Canonical texts are canonical.

The canonical text of a double says its shortest digits, so it is read as the
shortest decimal is, which is the double itself
(`Double.ofLeading_canonicalText`).  Zero is the exception: negative zero has
the text of positive zero and is read as that, but the text is the same.

Hence normalizing twice is normalizing once, on every text
(`normalize_normalize`), and doubles with the same text are the same number
(`Double.canonicalText_eq_iff`).
-/
import StructuralEditor.Proofs.Notation

namespace StructuralEditor.Number

-- the powers of the core library, whatever else is imported
attribute [local instance (2000)] instPowNat

/-! ### Canonical texts -/

namespace Double

/-- A double without the sign of a zero. -/
def dropZeroSign (x : Double) : Double :=
  if x.isZero then 0 else x

@[simp] theorem dropZeroSign_notANumber : notANumber.dropZeroSign = notANumber := rfl

@[simp] theorem dropZeroSign_infinite (negative : Bool) :
    (infinite negative).dropZeroSign = infinite negative := rfl

@[simp] theorem dropZeroSign_finite (negative : Bool) (m : Magnitude) :
    (finite negative m).dropZeroSign =
      .finite (if m.significand = 0 then false else negative) m := by
  rw [dropZeroSign, isZero]
  by_cases hm : m.significand = 0
  · obtain rfl := Magnitude.eq_zero_of_significand hm
    cases negative <;> rfl
  · simp [hm]

/-- Both zeros have one text. -/
theorem canonicalText_dropZeroSign (x : Double) :
    x.dropZeroSign.canonicalText = x.canonicalText := by
  rcases x with - | negative | ⟨negative, m⟩
  · rfl
  · rfl
  · rw [dropZeroSign_finite]
    by_cases hm : m.significand = 0
    · rw [canonicalText_zero hm, canonicalText_zero hm]
    · rw [if_neg hm]

/-- **The text of a double is read as that double**, but for the sign of a zero. -/
theorem ofLeading_canonicalText (x : Double) : ofLeading x.canonicalText = x.dropZeroSign := by
  rcases x with - | negative | ⟨negative, m⟩
  · decide
  · cases negative <;> decide
  · rw [dropZeroSign_finite]
    by_cases hm : m.significand = 0
    · obtain rfl := Magnitude.eq_zero_of_significand hm
      rw [canonicalText_zero hm, if_pos hm]
      decide
    · obtain ⟨x, hchars, -, hspells⟩ := exists_spelling negative m
      obtain ⟨hnegative, hsaid⟩ := hspells hm
      rw [hchars, x.ofLeading_chars, Spelling.value_of_said hm hsaid, hnegative, if_neg hm]

/-- Hence the text tells the double, up to that sign. -/
theorem canonicalText_eq_iff {x y : Double} :
    x.canonicalText = y.canonicalText ↔ x.dropZeroSign = y.dropZeroSign := by
  constructor
  · intro h
    rw [← ofLeading_canonicalText, h, ofLeading_canonicalText]
  · intro h
    rw [← canonicalText_dropZeroSign, h, canonicalText_dropZeroSign]

/-- Doubles without the sign of a zero are equal if they are the same number or are none. -/
theorem dropZeroSign_eq_iff {x y : Double} :
    x.dropZeroSign = y.dropZeroSign ↔
      x.same y = true ∨ x = .notANumber ∧ y = .notANumber := by
  rcases x with - | a | ⟨a, m⟩ <;> rcases y with - | b | ⟨b, n⟩
  case finite.finite =>
    rw [dropZeroSign_finite, dropZeroSign_finite, same]
    by_cases hmn : m = n
    · subst hmn
      by_cases hm : m.significand = 0 <;> simp [hm]
    · simp [hmn]
  all_goals simp [same]

end Double

/-- **The text of a double is canonical.** -/
theorem isCanonical_canonicalText (x : Double) : IsCanonical x.canonicalText := by
  rw [IsCanonical, normalize, Double.ofLeading_canonicalText, Double.canonicalText_dropZeroSign]

/-- Normalizing makes a text canonical, whatever it is. -/
theorem isCanonical_normalize (text : String) : IsCanonical (normalize text) :=
  isCanonical_canonicalText _

theorem normalize_normalize (text : String) : normalize (normalize text) = normalize text :=
  isCanonical_normalize text

/-- **The text of a number reads back**: reading it gives the number, with positive zero for both
zeros; normalizing a text twice is normalizing it once; and two numbers have one text only if they
are equal, or neither is a number. -/
theorem numberText_reads_back :
    (∀ x : Double, ∃ text, Data.numberText (.decimal x) = .ok text ∧
      Data.leadingNumber (.text text) = .ok (if x.isZero then 0 else x)) ∧
    (∀ s : String, ∃ text, Data.normalizedText (.text s) = .ok text ∧
      Data.normalizedText (.text text) = .ok text) ∧
    ∀ x y : Double, Data.numberText (.decimal x) = Data.numberText (.decimal y) ↔
      x.same y = true ∨ x = .notANumber ∧ y = .notANumber := by
  refine ⟨fun x => ⟨_, rfl, ?_⟩, fun s => ⟨_, rfl, ?_⟩, fun x y => ?_⟩
  · exact congrArg Except.ok x.ofLeading_canonicalText
  · exact congrArg Except.ok (normalize_normalize s)
  · rw [← Double.dropZeroSign_eq_iff, ← Double.canonicalText_eq_iff]
    simp only [Data.numberText, Except.ok.injEq]

end StructuralEditor.Number
