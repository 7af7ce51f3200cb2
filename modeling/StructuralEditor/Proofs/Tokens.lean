/-
StructuralEditor/Proofs/Tokens.lean

What the tokens of a JSON text are read from.

A token is known from the characters it takes, whatever comes after it
(`Token.IsReadFrom`): a text ends with its quote (`isReadFrom_quoted`), a name
with its last character, and a number with its last character too, provided
that what follows could not continue it (`IsDelimited`, `isReadFrom_chars`).
-/
import Mathlib.Data.Nat.Init
import StructuralEditor.Json.Token
import StructuralEditor.Proofs.Spelling
import StructuralEditor.Text.Quoted

namespace StructuralEditor.Json

open Number Text

/-! ### What may follow a number -/

/-- Whether a character could continue a number. -/
def continuesNumber (c : Char) : Bool :=
  c.isDigit || c == '.' || c == 'e' || c == 'E'

/-- Whether nothing at the beginning of a text could continue a number. -/
def IsDelimited (cs : List Char) : Prop :=
  ∀ c ∈ cs.head?, continuesNumber c = false

namespace IsDelimited

variable {cs ds : List Char}

theorem nil : IsDelimited [] := by simp [IsDelimited]

theorem cons {c : Char} (hc : continuesNumber c = false) : IsDelimited (c :: cs) := by
  simpa [IsDelimited] using hc

theorem append (hcs : IsDelimited cs) (hds : IsDelimited ds) : IsDelimited (cs ++ ds) := by
  cases cs with
  | nil => exact hds
  | cons c cs => exact cons (hcs c rfl)

theorem isDigit (hcs : IsDelimited cs) : ∀ c ∈ cs.head?, c.isDigit = false := by
  intro c hc
  have h := hcs c hc
  simp only [continuesNumber, Bool.or_eq_false_iff] at h
  exact h.1.1.1

end IsDelimited

/-! ### Numbers -/

/-- Digits end where something else than a digit follows. -/
theorem digitRun_append {ds rest : List Char} (hds : AreDigits ds)
    (hrest : ∀ c ∈ rest.head?, c.isDigit = false) : digitRun (ds ++ rest) = ds := by
  have htake : rest.takeWhile Char.isDigit = [] := by
    cases rest with
    | nil => rfl
    | cons c cs => simp [hrest c rfl]
  rw [digitRun, List.takeWhile_append_of_pos hds, htake, List.append_nil]

/-- So do the digits before a point, since a zero in front stands alone. -/
theorem wholeDigits_append {ds rest : List Char} (hds : AreDigits ds) (hne : ds ≠ [])
    (hzero : ds.head? = some '0' → ds = ['0']) (hrest : ∀ c ∈ rest.head?, c.isDigit = false) :
    wholeDigits (ds ++ rest) = ds := by
  obtain ⟨d, ds, rfl⟩ := List.exists_cons_of_ne_nil hne
  unfold wholeDigits
  split
  · next heq =>
    obtain rfl : d = '0' := (List.cons.inj heq).1
    exact (hzero rfl).symm
  · exact digitRun_append hds hrest

theorem digitsValue_eq (ds : List Char) : digitsValue ds = Nat.ofDigitChars 10 ds 0 := rfl

/-- The value that a spelling is read as: an integer if it is a whole one. -/
def valueOf (x : Spelling) : Data :=
  if x.isWhole then .integer x.integer else .decimal x.value

section

variable (x : Spelling) {rest : List Char}

theorem isDelimited_marked (hrest : IsDelimited rest) :
    ∀ c ∈ (x.marked ++ rest).head?, c.isDigit = false ∧ c ≠ '.' := by
  unfold Spelling.marked
  split
  · intro c hc
    have h := hrest c hc
    simp only [continuesNumber, Bool.or_eq_false_iff, beq_eq_false_iff_ne] at h
    exact ⟨h.1.1.1, h.1.1.2⟩
  · intro c hc
    obtain rfl : 'e' = c := Option.some.inj hc
    decide

theorem fractionDigits_pointed (hrest : IsDelimited rest) :
    fractionDigits (x.pointed ++ (x.marked ++ rest)) = x.fraction := by
  have hmarked := isDelimited_marked x hrest
  unfold Spelling.pointed
  rcases hfraction : x.fraction with - | ⟨d, ds⟩
  · -- without a fraction there is no point, and none follows
    simp only [List.isEmpty_nil, if_true, List.nil_append]
    unfold fractionDigits
    split
    · next heq => exact absurd rfl (hmarked '.' (by rw [heq]; rfl)).2
    · rfl
  · rw [← hfraction]
    simp only [hfraction, List.isEmpty_cons, Bool.false_eq_true, if_false, List.cons_append]
    rw [← List.cons_append, ← hfraction]
    exact digitRun_append x.fraction_digits fun c hc => (hmarked c hc).1

theorem exponentPart?_marked (hrest : IsDelimited rest) :
    exponentPart? (x.marked ++ rest) = x.exponent?.map fun _ => (x.power, x.marked.length) := by
  unfold Spelling.marked Spelling.power
  rcases hexponent : x.exponent? with - | ⟨negative, digits⟩
  · rcases rest with - | ⟨c, cs⟩
    · rfl
    · have h := hrest c rfl
      simp only [continuesNumber, Bool.or_eq_false_iff, beq_eq_false_iff_ne] at h
      simp [exponentPart?, h.1.2, h.2]
  · obtain ⟨hdigits, hne⟩ := x.exponent_digits _ hexponent
    have hrun := digitRun_append hdigits hrest.isDigit
    cases negative <;> simp [exponentPart?, hrun, hne, digitsValue_eq] <;> omega

theorem length_pointed :
    x.pointed.length = if x.fraction.isEmpty then 0 else x.fraction.length + 1 := by
  unfold Spelling.pointed
  split <;> rfl

theorem wholeDigits_unsigned (hrest : IsDelimited rest) :
    wholeDigits (x.unsigned ++ rest) = x.whole := by
  rw [Spelling.unsigned, List.append_assoc, List.append_assoc]
  refine wholeDigits_append x.whole_digits x.whole_ne_nil x.whole_zero ?_
  unfold Spelling.pointed
  split
  · exact fun c hc => (isDelimited_marked x hrest c hc).1
  · intro c hc
    obtain rfl : '.' = c := Option.some.inj hc
    decide

theorem length_chars : x.chars.length =
    (if x.negative then 1 else 0) + x.whole.length + x.pointed.length + x.marked.length := by
  unfold Spelling.chars Spelling.unsigned
  split <;> simp only [List.length_cons, List.length_append] <;> omega

/-- A spelling is taken as a whole, if nothing that follows continues it. -/
theorem numberToken?_chars (hrest : IsDelimited rest)
    (hlength : x.isWhole = true → x.whole.length ≤ maxDigits) :
    numberToken? (x.chars ++ rest) = some (.value (valueOf x), x.chars.length) := by
  have hwhole := wholeDigits_unsigned x hrest
  have hafter : (x.unsigned ++ rest).drop x.whole.length = x.pointed ++ (x.marked ++ rest) := by
    rw [Spelling.unsigned, List.append_assoc, List.append_assoc, List.drop_left]
  have hfraction := fractionDigits_pointed x hrest
  have hmarked : (x.pointed ++ (x.marked ++ rest)).drop
      (if x.fraction.isEmpty then 0 else x.fraction.length + 1) = x.marked ++ rest := by
    rw [← length_pointed, List.drop_left]
  have hexponent := exponentPart?_marked x hrest
  have hpart : (x.exponent?.map fun _ => (x.power, x.marked.length)).getD (0, 0) =
      (x.power, x.marked.length) := by
    unfold Spelling.power Spelling.marked
    cases x.exponent? <;> rfl
  have hisWhole : (x.fraction.isEmpty &&
      (x.exponent?.map fun _ => (x.power, x.marked.length)).isNone) = x.isWhole := by
    rw [Option.isNone_map, Spelling.isWhole]
  have hne : x.whole.isEmpty = false := by simpa using x.whole_ne_nil
  have hbounded : x.isWhole = true → ¬ maxDigits < x.whole.length := by
    intro h
    exact Nat.not_lt.2 (hlength h)
  have hshort : x.isWhole = true → x.fraction.isEmpty = true ∧ x.marked = [] := by
    intro h
    simp only [Spelling.isWhole, Bool.and_eq_true, Option.isNone_iff_eq_none] at h
    refine ⟨h.1, ?_⟩
    rw [Spelling.marked, h.2]
  rw [length_chars, length_pointed, valueOf]
  unfold numberToken?
  -- behind the sign both cases read the same pieces
  cases hnegative : x.negative with
  | true =>
    simp only [Spelling.chars, hnegative, if_true, List.cons_append, hwhole, hne, hafter, hfraction,
      hmarked, hexponent, hpart, hisWhole, Bool.false_eq_true, if_false]
    split
    · next h => simp [hbounded h, hshort h, Spelling.integer, hnegative, digitsValue_eq]
    · simp [Spelling.value, hnegative, digitsValue_eq]
  | false =>
    obtain ⟨d, cs, hunsigned, hd⟩ := x.exists_unsigned_cons
    have hminus := of_isDigit (· ≠ '-') (by decide) hd
    simp only [Spelling.chars, hnegative, Bool.false_eq_true, if_false]
    split
    · next heq =>
      rw [hunsigned] at heq
      exact absurd (List.cons.inj heq).1 hminus
    · simp only [hwhole, hne, hafter, hfraction, hmarked, hexponent, hpart, hisWhole,
        Bool.false_eq_true, if_false]
      split
      · next h => simp [hbounded h, hshort h, Spelling.integer, hnegative, digitsValue_eq]
      · simp [Spelling.value, hnegative, digitsValue_eq]

end

/-! ### Texts -/

theorem codeUnit?_append {cs : List Char} (hcs : cs.length = 4) (rest : List Char) :
    codeUnit? (cs ++ rest) = codeUnit? cs := by
  rcases cs with - | ⟨a, - | ⟨b, - | ⟨c, - | ⟨d, ds⟩⟩⟩⟩
  · cases hcs
  · cases hcs
  · cases hcs
  · cases hcs
  · rfl

theorem codeUnit?_hexadecimal :
    ∀ n < 0x20, (hexadecimal 4 n).length = 4 ∧ codeUnit? (hexadecimal 4 n) = some n := by
  decide

/-- The escape of a control character is read as that character. -/
theorem unicodeEscape_hexadecimal {c : Char} (hc : c.toNat < 0x20) (position : Nat)
    {tail : List Char} (htail : tail ≠ []) :
    unicodeEscape position (hexadecimal 4 c.toNat ++ tail) = .ok (c, 4) := by
  obtain ⟨hlength, hunit⟩ := codeUnit?_hexadecimal c.toNat hc
  -- a control character is no surrogate, so no second escape is looked for
  have hlow : isLowSurrogate c.toNat = false := by simp [isLowSurrogate]; omega
  have hhigh : isHighSurrogate c.toNat = false := by simp [isHighSurrogate]; omega
  have hchar : ofCodeUnit c.toNat = c := by simp [ofCodeUnit, hlow, hhigh, Char.ofNat_toNat]
  have hdrop : (hexadecimal 4 c.toNat ++ tail).drop 4 = tail := List.drop_left' hlength
  obtain ⟨d, ds, rfl⟩ := List.exists_cons_of_ne_nil htail
  unfold unicodeEscape
  rw [codeUnit?_append hlength, hunit, hdrop]
  simp only [hhigh, Bool.false_and, Bool.false_eq_true, if_false, hchar]
  split <;> rfl

section

variable {start position count : Nat} {c : Char} {cs tail : List Char}

/-! #### Characters in front of a text that is read -/

theorem textBody_quote (start position : Nat) (rest : List Char) :
    textBody start position ('"' :: rest) = .ok ([], 1) := by
  rw [textBody.eq_def]
  simp

theorem textBody_named {letter : Char} (hname : namedEscape? letter = some c)
    (hletter : letter ≠ 'u')
    (h : textBody start (position + 2) tail = .ok (cs, count)) :
    textBody start position ('\\' :: letter :: tail) = .ok (c :: cs, count + 2) := by
  rw [textBody.eq_def]
  simp [hletter, hname, h, bind, Except.bind]

theorem textBody_unicode {more : List Char}
    (hescape : unicodeEscape (position + 1) more = .ok (c, 4))
    (h : textBody start (position + 6) (more.drop 4) = .ok (cs, count)) :
    textBody start position ('\\' :: 'u' :: more) = .ok (c :: cs, count + 6) := by
  rw [textBody]
  simp [hescape, h, bind, Except.bind]

theorem textBody_plain (hquote : c ≠ '"') (hbackslash : c ≠ '\\') (hcontrol : ¬ c.toNat < 0x20)
    (h : textBody start (position + 1) tail = .ok (cs, count)) :
    textBody start position (c :: tail) = .ok (c :: cs, count + 1) := by
  rw [textBody.eq_def]
  simp [hquote, hbackslash, hcontrol, h, bind, Except.bind]

/-- An escaped character in front of a text is read as that character. -/
theorem textBody_escapeQuoted (htail : tail ≠ [])
    (h : textBody start (position + (escapeQuoted c).length) tail = .ok (cs, count)) :
    textBody start position (escapeQuoted c ++ tail) =
      .ok (c :: cs, count + (escapeQuoted c).length) := by
  revert h
  -- control characters have a numbered escape, plain ones none, all others a letter
  fun_cases escapeQuoted c with
  | case8 _ _ _ _ _ _ _ hcontrol =>
    intro h
    have hlength := (codeUnit?_hexadecimal c.toNat hcontrol).1
    simp only [List.length_cons, hlength] at h ⊢
    rw [List.cons_append, List.cons_append]
    refine textBody_unicode (unicodeEscape_hexadecimal hcontrol _ htail) ?_
    rw [List.drop_left' hlength]
    exact h
  | case9 hquote hbackslash _ _ _ _ _ hcontrol => exact textBody_plain hquote hbackslash hcontrol
  | _ =>
    subst_vars
    exact textBody_named rfl (by decide)

/-- A quoted text is read as that text. -/
theorem textBody_quoted (start position : Nat) (cs rest : List Char) :
    textBody start position (cs.flatMap escapeQuoted ++ '"' :: rest) =
      .ok (cs, (cs.flatMap escapeQuoted).length + 1) := by
  induction cs generalizing position with
  | nil => exact textBody_quote start position rest
  | cons c cs ih =>
    rw [List.flatMap_cons, List.append_assoc, textBody_escapeQuoted (by simp) (ih _),
      List.length_append]
    congr 2
    omega

end

/-! ### Tokens -/

/-- Whether a token is read from the given characters, in front of anything
that could not continue a number. -/
def Token.IsReadFrom (token : Token) (cs : List Char) : Prop :=
  ∃ first more, cs = first :: more ∧ isGap first = false ∧
    ∀ position rest, IsDelimited rest →
      leadingToken position first (more ++ rest) = (token, more.length)

/-- A quoted text is a token of its own. -/
theorem isReadFrom_quoted (s : String) : (Token.text s).IsReadFrom (quoted s).toList := by
  have hquoted : (quoted s).toList = '"' :: (s.toList.flatMap escapeQuoted ++ ['"']) := by
    rw [quoted, String.toList_ofList]
  refine ⟨'"', s.toList.flatMap escapeQuoted ++ ['"'], hquoted, by decide, ?_⟩
  intro position rest _
  have hmark : markToken? '"' = none := by decide
  rw [leadingToken, hmark, List.append_assoc]
  simp only [if_true, List.singleton_append, textToken, textBody_quoted]
  simp

/-- The values with a name are read from their names. -/
theorem isReadFrom_name {name : List Char} {value : Data} (h : (name, value) ∈ namedValues) :
    (Token.value value).IsReadFrom name := by
  simp only [namedValues, List.mem_cons, Prod.mk.injEq, List.not_mem_nil, or_false] at h
  rcases h with ⟨rfl, rfl⟩ | ⟨rfl, rfl⟩ | ⟨rfl, rfl⟩ | ⟨rfl, rfl⟩ | ⟨rfl, rfl⟩ |
    ⟨rfl, rfl⟩ <;> exact ⟨_, _, rfl, by decide, fun _ _ _ => rfl⟩

/-- No name begins with a digit, … -/
theorem find_namedValues_digit {d : Char} (hd : d.isDigit = true) (cs : List Char) :
    (namedValues.find? fun (name, _) => name.isPrefixOf (d :: cs)) = none := by
  have hne := of_isDigit (fun d => ('n' == d) = false ∧ ('t' == d) = false ∧ ('f' == d) = false ∧
    ('N' == d) = false ∧ ('I' == d) = false ∧ ('-' == d) = false) (by decide) hd
  simp [namedValues, List.isPrefixOf, hne]

/-- … and none with a minus and a digit. -/
theorem find_namedValues_minus {d : Char} (hd : d.isDigit = true) (cs : List Char) :
    (namedValues.find? fun (name, _) => name.isPrefixOf ('-' :: d :: cs)) = none := by
  have hne := of_isDigit (fun d => ('I' == d) = false) (by decide) hd
  simp [namedValues, List.isPrefixOf, hne]

/-- A spelling is read as its value, unless it has too many digits. -/
theorem isReadFrom_chars (x : Spelling)
    (hlength : x.isWhole = true → x.whole.length ≤ maxDigits) :
    (Token.value (valueOf x)).IsReadFrom x.chars := by
  obtain ⟨d, cs, hunsigned, hd⟩ := x.exists_unsigned_cons
  obtain ⟨first, more, hchars, hfirst⟩ : ∃ first more, x.chars = first :: more ∧
      (first.isDigit = true ∨ first = '-' ∧ ∃ d cs, more = d :: cs ∧ d.isDigit = true) := by
    unfold Spelling.chars
    cases x.negative with
    | true => exact ⟨'-', x.unsigned, rfl, .inr ⟨rfl, d, cs, hunsigned, hd⟩⟩
    | false => exact ⟨d, cs, hunsigned, .inl hd⟩
  refine ⟨first, more, hchars, ?_, fun position rest hrest => ?_⟩
  · rcases hfirst with hdigit | ⟨rfl, -⟩
    · exact of_isDigit (isGap · = false) (by decide) hdigit
    · decide
  · have hnumber := numberToken?_chars x hrest hlength
    rw [hchars, List.cons_append] at hnumber
    -- a digit, or a minus before one, begins neither a name nor a mark nor a text
    have hnames : (namedValues.find? fun (name, _) =>
        name.isPrefixOf (first :: (more ++ rest))) = none := by
      rcases hfirst with hdigit | ⟨rfl, d, cs, rfl, hdigit⟩
      · exact find_namedValues_digit hdigit _
      · exact find_namedValues_minus hdigit _
    have hmark : markToken? first = none ∧ first ≠ '"' := by
      rcases hfirst with hdigit | ⟨rfl, -⟩
      · exact of_isDigit (fun c => markToken? c = none ∧ c ≠ '"') (by decide) hdigit
      · decide
    simp only [leadingToken, hmark.1, hmark.2, if_false, hnames, hnumber, List.length_cons]
    rfl

end StructuralEditor.Json
