/-
StructuralEditor/Text/Blank.lean

Blank characters: the white space that separates or surrounds text, in the
sense of the Unicode bidirectional classes WS, B and S together with the
space separators.  It is wider than ASCII white space (it has U+0085, U+00A0,
the spaces of General Punctuation and U+3000, and the four information
separators U+001C to U+001F) and narrower than "invisible" (U+200B and
U+FEFF are not blank).
-/
namespace StructuralEditor.Text

/-- The blank code points, as inclusive ranges in increasing order. -/
def blankRanges : List (Nat × Nat) :=
  [(0x09, 0x0d), (0x1c, 0x20), (0x85, 0x85), (0xa0, 0xa0), (0x1680, 0x1680),
   (0x2000, 0x200a), (0x2028, 0x2029), (0x202f, 0x202f), (0x205f, 0x205f),
   (0x3000, 0x3000)]

/-- Whether a character is blank. -/
def isBlank (c : Char) : Bool :=
  blankRanges.any fun (first, last) => first ≤ c.toNat && c.toNat ≤ last

/-- Whether a character is one of the four information separators, which
divide records rather than words. -/
def isInformationSeparator (c : Char) : Bool :=
  0x1c ≤ c.toNat && c.toNat ≤ 0x1f

/-- Whether a character may surround a numeral: every blank except the
information separators. -/
def isPadding (c : Char) : Bool :=
  isBlank c && !isInformationSeparator c

/-- The characters left when those satisfying `p` are removed from both ends. -/
def strip (p : Char → Bool) (cs : List Char) : List Char :=
  ((cs.dropWhile p).reverse.dropWhile p).reverse

/-- The text without blanks at its ends. -/
def trim (s : String) : String :=
  String.ofList (strip isBlank s.toList)

@[simp] theorem strip_nil (p : Char → Bool) : strip p [] = [] := rfl

/-- Stripping a text whose ends already fail `p` changes nothing. -/
theorem strip_eq_self {p : Char → Bool} {cs : List Char}
    (hfirst : ∀ c r, cs = c :: r → p c = false)
    (hlast : ∀ c r, cs.reverse = c :: r → p c = false) : strip p cs = cs := by
  have key : ∀ l : List Char, (∀ c r, l = c :: r → p c = false) → l.dropWhile p = l := by
    intro l hl
    cases l with
    | nil => rfl
    | cons c r => simp [hl c r rfl]
  simp only [strip, key cs hfirst, key cs.reverse hlast, List.reverse_reverse]

end StructuralEditor.Text
