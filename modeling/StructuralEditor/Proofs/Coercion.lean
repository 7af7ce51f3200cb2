/-
StructuralEditor/Proofs/Coercion.lean

What a node becomes as a number.

A conversion reads a text in two ways: as a whole, with fewer spellings than a
number has elsewhere, and as far as it goes.  Only literals with a radix tell the
two apart.  Any other text that is a number as a whole is a numeral to its last
character, and then the longest numeral it begins with is all of it
(`strictNumber_cases`).  So the first reading matters for literals with a radix
alone, which denote an integer to it and zero to the other one.

What is stored is the canonical text of a number, and such a text is read as that
number, whichever leaf it stands in (`canonicalText_numberOf`): it has no blanks
to lose, and no letter in it announces a radix.  A second conversion therefore
changes nothing, and neither does one by way of a string.
-/
import StructuralEditor.Proofs.Canonicity
import StructuralEditor.Proofs.Editing
import StructuralEditor.Proofs.Numerals

namespace StructuralEditor.Text

/-! ### Texts without blanks at their ends -/

/-- Whether neither end of a text is blank. -/
structure HasBareEnds (cs : List Char) : Prop where
  head : ∀ c ∈ cs.head?, isBlank c = false
  getLast : ∀ c ∈ cs.getLast?, isBlank c = false

theorem HasBareEnds.dropWhile_isBlank {cs : List Char} (h : HasBareEnds cs) :
    cs.dropWhile isBlank = cs := by
  cases cs with
  | nil => rfl
  | cons c cs => exact List.dropWhile_cons_of_neg (by simp [h.head c rfl])

/-- Nothing is stripped from such a text that could only be blank. -/
theorem HasBareEnds.strip_eq_self {cs : List Char} (h : HasBareEnds cs) {p : Char → Bool}
    (hp : ∀ c, isBlank c = false → p c = false) : strip p cs = cs := by
  apply Text.strip_eq_self
  · rintro c rest rfl
    exact hp c (h.head c rfl)
  · intro c rest hreverse
    refine hp c (h.getLast c ?_)
    rw [← List.head?_reverse, hreverse]
    rfl

theorem hasBareEnds_strip (cs : List Char) : HasBareEnds (strip isBlank cs) := by
  have hdropped (l : List Char) : ∀ c ∈ (l.dropWhile isBlank).head?, isBlank c = false := by
    intro c hc
    have h := List.head?_dropWhile_not isBlank l
    rw [Option.mem_def.1 hc] at h
    exact h
  constructor
  · intro c hc
    obtain ⟨rest, hrest⟩ : strip isBlank cs <+: cs.dropWhile isBlank := by
      rw [← List.reverse_suffix, strip, List.reverse_reverse]
      exact List.dropWhile_suffix _
    apply hdropped cs c
    rw [← hrest, List.head?_append, Option.mem_def.1 hc]
    rfl
  · intro c hc
    apply hdropped (cs.dropWhile isBlank).reverse c
    rwa [strip, List.getLast?_reverse] at hc

end StructuralEditor.Text

namespace StructuralEditor.Number

open Text

/-! ### Literals with a radix -/

/-- A literal with a radix: a zero, the letter of the radix and some of its digits. -/
inductive IsRadixLiteral : List Char → Nat → Prop
  | intro {letter : Char} {radix : Nat} {ds : List Char} {values : List Nat} :
      radixOf? letter = some radix → HaveValues (radixDigit? radix) ds values → ds ≠ [] →
        IsRadixLiteral ('0' :: letter :: ds) (saidBy radix values)

theorem mapM_eq_some_iff {value? : Char → Option Nat} {ds : List Char} {values : List Nat} :
    ds.mapM value? = some values ↔ HaveValues value? ds values := by
  induction ds generalizing values with
  | nil => simp [HaveValues, eq_comm]
  | cons d ds ih =>
    simp only [List.mapM_cons, bind, Option.bind_eq_some_iff, pure, Option.some.injEq, ih,
      HaveValues, List.forall₂_cons_left_iff]
    constructor
    · rintro ⟨value, hd, more, hds, rfl⟩
      exact ⟨value, more, hd, hds, rfl⟩
    · rintro ⟨value, more, hd, hds, rfl⟩
      exact ⟨value, hd, more, hds, rfl⟩

theorem radixLiteral?_eq_some_iff {cs : List Char} {n : Nat} :
    radixLiteral? cs = some n ↔ IsRadixLiteral cs n := by
  constructor
  · intro h
    unfold radixLiteral? at h
    split at h
    · simp only [Option.bind_eq_some_iff, Option.map_eq_some_iff] at h
      obtain ⟨radix, hletter, values, hvalues, rfl⟩ := h
      rw [foldl_digits_eq]
      exact .intro hletter (mapM_eq_some_iff.1 hvalues) (List.cons_ne_nil _ _)
    · cases h
  · rintro ⟨hletter, hvalues, hne⟩
    obtain ⟨first, rest, rfl⟩ := List.exists_cons_of_ne_nil hne
    rw [radixLiteral?, hletter, Option.bind_some, mapM_eq_some_iff.2 hvalues, Option.map_some,
      foldl_digits_eq]

theorem radixLiteral?_eq_none_iff {cs : List Char} :
    radixLiteral? cs = none ↔ ∀ n, ¬ IsRadixLiteral cs n := by
  simp only [Option.eq_none_iff_forall_ne_some, ne_eq, radixLiteral?_eq_some_iff]

/-- As far as numerals go, such a literal is a zero. -/
theorem IsRadixLiteral.ofLeading {text : String} {n : Nat} (h : IsRadixLiteral text.toList n) :
    Double.ofLeading text = 0 := by
  generalize hcs : text.toList = cs at h
  obtain @⟨letter, radix, ds, values, hletter, hvalues, hne⟩ := h
  have hread : Numeral.leading? ('0' :: letter :: ds) =
      some (.decimal false [0] [] 0, letter :: ds) := by
    unfold radixOf? at hletter
    split_ifs at hletter with hx ho hb
    · rcases hx with rfl | rfl <;> rfl
    · rcases ho with rfl | rfl <;> rfl
    · rcases hb with rfl | rfl <;> rfl
  have hbare : text.toList.dropWhile isBlank = text.toList := by
    rw [hcs]
    rfl
  rw [Double.ofLeading, hbare, hcs, hread]
  rfl

/-! ### Texts read as a whole -/

theorem joinGroups_eq_some {cs : List Char} (h : '_' ∉ cs) (afterDigit : Bool) :
    joinGroups afterDigit cs = some cs := by
  induction cs generalizing afterDigit with
  | nil => rfl
  | cons c cs ih =>
    obtain ⟨hc, hcs⟩ := List.ne_and_not_mem_of_not_mem_cons h
    unfold joinGroups
    split
    · next heq => cases heq
    · next heq => exact absurd (List.cons.inj heq).1.symm hc
    · next heq => exact absurd (List.cons.inj heq).1.symm hc
    · next c' cs' _ _ heq =>
      obtain ⟨rfl, rfl⟩ := List.cons.inj heq
      rw [ih hcs, Option.map_some]

/-- A name of a special value begins with no sign. -/
theorem head_of_name {name : List Char}
    (h : String.ofList (name.map Char.toLower) ∈ ["inf", "infinity", "nan"]) :
    ∀ c ∈ name.head?, c ≠ '-' ∧ c ≠ '+' := by
  intro c hc
  obtain ⟨rest, rfl⟩ : ∃ rest, name = c :: rest := List.head?_eq_some_iff.1 hc
  have hlower : c.toLower = 'i' ∨ c.toLower = 'n' := by
    simp only [List.mem_cons, List.not_mem_nil, or_false, String.ext_iff, String.toList_ofList] at h
    rcases h with h | h | h
    · exact .inl (List.cons.inj h).1
    · exact .inl (List.cons.inj h).1
    · exact .inr (List.cons.inj h).1
  constructor <;> rintro rfl <;> revert hlower <;> decide

theorem dropWhile_sign {sign name : List Char} {negative : Bool} (hsign : IsSign sign negative)
    (hhead : ∀ c ∈ name.head?, c ≠ '-' ∧ c ≠ '+') :
    (sign ++ name).dropWhile (fun c => c = '+' || c = '-') = name := by
  have hself : name.dropWhile (fun c => c = '+' || c = '-') = name := by
    cases name with
    | nil => rfl
    | cons c cs => exact List.dropWhile_cons_of_neg (by simp [hhead c rfl])
  cases hsign <;> exact hself

/-- The special value that a conversion knows is the one that numerals know. -/
theorem isNumeral_of_namedValue? {cs : List Char} {x : Double} (hx : namedValue? cs = some x)
    (hname : let unsigned := cs.dropWhile fun c => c = '+' || c = '-'
      (namedValue? unsigned).isSome = true → unsigned = Numeral.infinityName) :
    ∃ negative, x = .infinite negative ∧ IsNumeral cs (.infinity negative) := by
  obtain ⟨sign, hcs, hsign⟩ := Numeral.exists_leadingSign cs
  have hmem : String.ofList ((Numeral.leadingSign cs).2.map Char.toLower) ∈
      ["inf", "infinity", "nan"] := by
    unfold namedValue? at hx
    grind
  generalize Numeral.leadingSign cs = read at *
  obtain ⟨negative, unsigned⟩ := read
  simp only at hcs hsign hmem
  subst hcs
  have hhead := head_of_name hmem
  have hnamed : (namedValue? unsigned).isSome = true := by
    have hread := IsSign.absent.leadingSign hhead
    rw [List.nil_append] at hread
    rw [namedValue?, hread]
    grind
  rw [dropWhile_sign hsign hhead] at hname
  obtain rfl := hname hnamed
  have hinfinity : String.ofList (Numeral.infinityName.map Char.toLower) = "infinity" := by decide
  rw [namedValue?, hsign.leadingSign hhead] at hx
  simp only [hinfinity, or_true, if_true, Option.some.injEq] at hx
  exact ⟨negative, hx.symm, .infinity hsign⟩

end StructuralEditor.Number

namespace StructuralEditor.Editing

open Document Number Text

/-! ### The two readings -/

/-- Without a radix the two readings of a text agree, unless the one of the whole text gives no
proper number. -/
theorem strictNumber_cases {text : String} (hbare : HasBareEnds text.toList)
    (hradix : ∀ n, ¬ IsRadixLiteral text.toList n) :
    strictNumber text = .ofLeading text ∨ isProper (strictNumber text) = false := by
  rw [strictNumber]
  simp only [radixLiteral?_eq_none_iff.2 hradix]
  split_ifs with hnil hplain
  · exact .inr (by decide)
  · exact .inr (by decide)
  · simp only [Bool.or_eq_true, not_or, Bool.and_eq_true, bne_iff_ne, ne_eq, not_and,
      not_not] at hplain
    obtain ⟨hgroups, hname⟩ := hplain
    have hstrip : strip isPadding text.toList = text.toList :=
      hbare.strip_eq_self fun c hc => by simp [isPadding, hc]
    have hjoin : joinGroups false text.toList = some text.toList :=
      joinGroups_eq_some (by simpa using hgroups) false
    rw [Double.ofWhole?, Double.ofLeading, hstrip, hjoin, hbare.dropWhile_isBlank]
    rcases hx : namedValue? text.toList with - | x
    · simp only [Option.none_or, Option.bind_some]
      split
      · next heq =>
        rw [heq]
        exact .inl rfl
      · exact .inr rfl
    · obtain ⟨negative, rfl, hnumeral⟩ := isNumeral_of_namedValue? hx hname
      rw [hnumeral.leading?_self]
      exact .inl rfl

/-! ### The number that a node keeps -/

theorem numberOf_eq {node : Node} (hnode : ∀ b, node ≠ .boolean b) :
    numberOf node =
      let text := trim (scalarText node)
      ([strictNumber text, .ofLeading text].find? isProper).getD 0 := by
  cases node with
  | boolean b => exact absurd rfl (hnode b)
  | _ => rfl

/-- The number of a node without a radix is its leading number, if that is proper. -/
theorem numberOf_of_plain {node : Node} (hnode : ∀ b, node ≠ .boolean b)
    (hradix : ∀ n, ¬ IsRadixLiteral (trim (scalarText node)).toList n) :
    numberOf node =
      if isProper (.ofLeading (trim (scalarText node))) then .ofLeading (trim (scalarText node))
      else 0 := by
  have hbare : HasBareEnds (trim (scalarText node)).toList := by
    rw [trim, String.toList_ofList]
    exact hasBareEnds_strip _
  rw [numberOf_eq hnode]
  simp only
  generalize trim (scalarText node) = text at *
  have hcases := strictNumber_cases hbare hradix
  grind

/-- The double nearest to an integer that is not zero is not zero either. -/
theorem isProper_ofInt {n : Nat} (hn : n ≠ 0) : isProper (.ofInt n) = true := by
  rw [Double.ofInt, Int.natAbs_natCast]
  rcases hround : Magnitude.ofRatio? n 1 with - | m
  · rfl
  · have hnearest := Magnitude.isNearest_of_ofRatio? (Nat.pos_of_ne_zero hn) one_pos hround
    have hm : m.significand ≠ 0 := by
      intro hzero
      -- one would be nearer
      have hone := (hnearest ⟨2 ^ 52, -52, by decide⟩).1
      have hpos : (1 : ℚ) ≤ n := by exact_mod_cast Nat.one_le_iff_ne_zero.2 hn
      have hvalue : (Magnitude.value ⟨2 ^ 52, -52, by decide⟩ : ℚ) = 1 := by
        norm_num [Magnitude.value]
      rw [hvalue, Magnitude.value, hzero, Nat.cast_zero, zero_mul, Nat.cast_one, div_one,
        abs_of_nonpos (by linarith), abs_of_nonpos (by linarith)] at hone
      linarith
    simp [isProper, Double.ofMagnitude, Double.isZero, hm]

/-- The number of a literal with a radix is the one that it denotes. -/
theorem numberOf_of_radix {node : Node} {n : Nat} (hnode : ∀ b, node ≠ .boolean b)
    (hradix : IsRadixLiteral (trim (scalarText node)).toList n) : numberOf node = .ofInt n := by
  rw [numberOf_eq hnode]
  simp only
  generalize trim (scalarText node) = text at *
  have hne : text.toList.isEmpty = false := by
    generalize text.toList = cs at *
    cases hradix
    rfl
  have hstrict : strictNumber text = .ofInt n := by
    rw [strictNumber]
    simp [hne, radixLiteral?_eq_some_iff.2 hradix]
  rw [hstrict, hradix.ofLeading]
  rcases eq_or_ne n 0 with rfl | hn
  · decide
  · rw [List.find?_cons_of_pos (isProper_ofInt hn), Option.getD_some]

/-! ### Conversions to numbers -/

variable {tree : Node} {selected : Path}

/-- A conversion to a number writes the text of the number that the node keeps. -/
theorem toNumber_eq_ok {node : Node} (hnode : tree.nodeAt? selected = some node) :
    ∃ rebuilt, tree.put? selected (.node (.number (numberOf node).canonicalText)) = some rebuilt ∧
      toNumber tree selected = .ok (.applied .replaced ⟨some rebuilt, some selected⟩) := by
  obtain ⟨rebuilt, hput, hok⟩ := replace_eq_ok hnode (.number (numberOf node).canonicalText) []
  rw [List.append_nil] at hok
  refine ⟨rebuilt, hput, ?_⟩
  rw [toNumber, hnode]
  exact hok

/-- **The two readings of a number agree.**  Where the reading of a whole text gives a proper
number, the reading of its beginning gives the same.  So a node other than a truth value becomes
the number that its text begins with, or zero if there is none, unless its text is a literal with
a radix, which becomes the integer that it denotes. -/
theorem toNumber_by_text :
    (∀ text : String, HasBareEnds text.toList → (∀ n, ¬ IsRadixLiteral text.toList n) →
      isProper (strictNumber text) = true →
        Data.leadingNumber (.text text) = .ok (strictNumber text)) ∧
    ∀ (tree : Node) (selected : Path) (node : Node),
      tree.nodeAt? selected = some node → (∀ b, node ≠ .boolean b) →
      let text := trim (scalarText node)
      ∃ stored rebuilt,
        toNumber tree selected = .ok (.applied .replaced ⟨some rebuilt, some selected⟩) ∧
        tree.put? selected (.node (.number stored)) = some rebuilt ∧
        ((∀ n, ¬ IsRadixLiteral text.toList n) →
          ∃ x, Data.leadingNumber (.text text) = .ok x ∧
            (isProper x = true → Data.numberText (.decimal x) = .ok stored) ∧
            (isProper x = false → stored = "0")) ∧
        ∀ n : Nat, IsRadixLiteral text.toList n →
          Data.numberText (.integer n) = .ok stored ∧ (n = 0 → stored = "0") ∧
            (Magnitude.overflow ≤ n → stored = "Infinity") := by
  refine ⟨fun text hbare hradix hproper => ?_, fun tree selected node hnode hother => ?_⟩
  · rcases strictNumber_cases hbare hradix with heq | himproper
    · exact congrArg Except.ok heq.symm
    · rw [himproper] at hproper
      cases hproper
  · intro text
    obtain ⟨rebuilt, hput, hok⟩ := toNumber_eq_ok hnode
    refine ⟨_, rebuilt, hok, hput, fun hradix => ⟨.ofLeading text, rfl, ?_, ?_⟩,
      fun n hradix => ?_⟩
    · intro hproper
      have heq : numberOf node = .ofLeading text :=
        (numberOf_of_plain hother hradix).trans (if_pos hproper)
      rw [heq]
      rfl
    · intro himproper
      have heq : numberOf node = 0 :=
        (numberOf_of_plain hother hradix).trans (if_neg (Bool.eq_false_iff.1 himproper))
      rw [heq]
      decide
    · rw [numberOf_of_radix hother hradix]
      refine ⟨rfl, ?_, fun hlarge => ?_⟩
      · rintro rfl
        decide
      · rw [Double.ofInt, Int.natAbs_natCast, Magnitude.ofRatio?_one_eq_none_iff.2 hlarge]
        rfl

/-- A whole text, a quantity with its unit and a literal with a radix. -/
theorem toNumber_of_quantities :
    let tree : Node := .array [.string " -2.5kg ", .identifier "0x1F"]
    let first : Path := [.field "elements", .index 0]
    let second : Path := [.field "elements", .index 1]
    Data.leadingNumber (.text "1e3") = .ok (strictNumber "1e3") ∧
    (∃ rebuilt, toNumber tree first = .ok (.applied .replaced ⟨some rebuilt, some first⟩) ∧
      tree.put? first (.node (.number "-2.5")) = some rebuilt) ∧
    ∃ rebuilt, toNumber tree second = .ok (.applied .replaced ⟨some rebuilt, some second⟩) ∧
      tree.put? second (.node (.number "31")) = some rebuilt := by
  intro tree first second
  obtain ⟨hstrict, hconversion⟩ := toNumber_by_text
  refine ⟨?_, ?_, ?_⟩
  · exact hstrict "1e3" (hasBareEnds_strip "1e3".toList) (radixLiteral?_eq_none_iff.1 (by decide))
      (by decide +kernel)
  · obtain ⟨stored, rebuilt, hok, hput, hplain, -⟩ :=
      hconversion tree first (.string " -2.5kg ") rfl (by simp)
    obtain ⟨x, hx, hproper, -⟩ := hplain (radixLiteral?_eq_none_iff.1 (by decide))
    obtain rfl := Except.ok.inj hx
    have hstored : stored = "-2.5" :=
      (Except.ok.inj (hproper (by decide +kernel))).symm.trans (by decide +kernel)
    rw [hstored] at hput
    exact ⟨rebuilt, hok, hput⟩
  · obtain ⟨stored, rebuilt, hok, hput, -, hradix⟩ :=
      hconversion tree second (.identifier "0x1F") rfl (by simp)
    obtain ⟨htext, -, -⟩ := hradix 31 (radixLiteral?_eq_some_iff.1 (by decide))
    have hstored : stored = "31" := (Except.ok.inj htext).symm.trans (by decide +kernel)
    rw [hstored] at hput
    exact ⟨rebuilt, hok, hput⟩

/-! ### Conversions are stable -/

theorem numberOf_cases (node : Node) : numberOf node = 0 ∨ isProper (numberOf node) = true := by
  by_cases hnode : ∃ b, node = .boolean b
  · obtain ⟨b, rfl⟩ := hnode
    cases b <;> decide
  · rw [numberOf_eq fun b hb => hnode ⟨b, hb⟩]
    simp only
    rcases hfind : List.find? isProper _ with - | x
    · exact .inl rfl
    · exact .inr (List.find?_some hfind)

/-- Every number that a node keeps has a text, and not that of no number. -/
theorem canonicalText_numberOf_ne (node : Node) : (numberOf node).canonicalText ≠ "NaN" := by
  intro h
  have hsame := Double.canonicalText_eq_iff.1
    (h.trans (show "NaN" = Double.notANumber.canonicalText by decide))
  rcases numberOf_cases node with hzero | hproper
  · rw [hzero] at hsame
    exact absurd hsame (by decide)
  · simp only [isProper, Bool.and_eq_true, Bool.not_eq_true', bne_iff_ne] at hproper
    rw [Double.dropZeroSign_notANumber, Double.dropZeroSign, if_neg (by simp [hproper.1])] at hsame
    exact hproper.2 hsame

/-- Whether a character is not blank and announces no radix. -/
def IsInert (c : Char) : Prop :=
  isBlank c = false ∧ radixOf? c = none

instance : DecidablePred IsInert := fun c => by
  unfold IsInert
  infer_instance

/-- A canonical text has no blanks, nor a letter that announces a radix. -/
theorem isInert_of_mem_canonicalText (x : Double) : ∀ c ∈ x.canonicalText.toList, IsInert c := by
  rcases x with - | negative | ⟨negative, m⟩
  · exact List.forall_iff_forall_mem.1 (by decide)
  · cases negative <;> exact List.forall_iff_forall_mem.1 (by decide)
  · obtain ⟨x, hchars, -, -⟩ := exists_spelling negative m
    rw [hchars, String.toList_ofList]
    intro c hc
    rcases Spelling.mem_chars hc with hdigit | hmark
    · exact of_isDigit IsInert (by decide) hdigit
    · have hmarks : List.Forall IsInert ['-', '+', '.', 'e'] := by decide
      exact List.forall_iff_forall_mem.1 hmarks c hmark

/-- A canonical text of a number is kept as it stands. -/
theorem canonicalText_numberOf (kind : LeafKind) {text : String} (htext : IsCanonical text)
    (hnan : text ≠ "NaN") : (numberOf (.leaf kind text)).canonicalText = text := by
  have hx : (Double.ofLeading text).canonicalText = text := htext
  have hchars := isInert_of_mem_canonicalText (.ofLeading text)
  rw [hx] at hchars
  have hbare : HasBareEnds text.toList :=
    ⟨fun c hc => (hchars c (List.mem_of_mem_head? hc)).1,
      fun c hc => (hchars c (List.mem_of_mem_getLast? hc)).1⟩
  have htrim : trim (scalarText (.leaf kind text)) = text := by
    show String.ofList (strip isBlank text.toList) = text
    rw [hbare.strip_eq_self fun c hc => hc, String.ofList_toList]
  have hradix : ∀ n, ¬ IsRadixLiteral text.toList n := by
    intro n h
    generalize text.toList = cs at *
    obtain @⟨letter, radix, ds, values, hletter, hvalues, hne⟩ := h
    have hnone := (hchars letter (by simp)).2
    rw [hletter] at hnone
    cases hnone
  rw [numberOf_of_plain (by simp) (by rwa [htrim]), htrim]
  split_ifs with hproper
  · exact hx
  · have hnumber : Double.ofLeading text ≠ .notANumber := by
      intro heq
      rw [heq] at hx
      exact hnan hx.symm
    have hzero : (Double.ofLeading text).isZero = true := by
      by_contra hne
      exact hproper (by simp [isProper, hne, hnumber])
    have hdrop := Double.canonicalText_dropZeroSign (.ofLeading text)
    rw [Double.dropZeroSign, if_pos hzero, hx] at hdrop
    exact hdrop

/-- **Conversions to numbers are stable.**  Where a node is selected, what it becomes has a
canonical text, never that of no number, and becomes the same again.  A number with a canonical
text becomes the string of that text, and from that string itself again. -/
theorem toNumber_stable (hselected : tree.resolves selected = true)
    (hlast : selected.isAfterLast = false) :
    (∃ stored rebuilt,
      toNumber tree selected = .ok (.applied .replaced ⟨some rebuilt, some selected⟩) ∧
      tree.put? selected (.node (.number stored)) = some rebuilt ∧
      Data.normalizedText (.text stored) = .ok stored ∧ stored ≠ "NaN" ∧
      toNumber rebuilt selected = .ok (.applied .replaced ⟨some rebuilt, some selected⟩)) ∧
    ∀ text, tree.nodeAt? selected = some (.number text) →
      Data.normalizedText (.text text) = .ok text → text ≠ "NaN" →
      ∃ between, tree.put? selected (.node (.string text)) = some between ∧
        toText tree selected = .ok (.applied .replaced ⟨some between, some selected⟩) ∧
        toNumber between selected = .ok (.applied .replaced ⟨some tree, some selected⟩) := by
  -- a canonical text that stands in a leaf is written there again
  have hagain {kind : LeafKind} {text : String} {after : Node}
      (hput : tree.put? selected (.node (.leaf kind text)) = some after) (htext : IsCanonical text)
      (hnan : text ≠ "NaN") :
      ∃ rebuilt, tree.put? selected (.node (.number text)) = some rebuilt ∧
        toNumber after selected = .ok (.applied .replaced ⟨some rebuilt, some selected⟩) := by
    have hnode := Node.nodeAt?_eq_some.2 (Node.get?_put? hput)
    obtain ⟨rebuilt, hput', hok⟩ := toNumber_eq_ok hnode
    rw [canonicalText_numberOf kind htext hnan, Node.put?_put? hput] at hput'
    exact ⟨rebuilt, hput', hok⟩
  constructor
  · rw [Node.resolves, hlast] at hselected
    obtain ⟨node, hnode⟩ := Option.isSome_iff_exists.1 hselected
    obtain ⟨rebuilt, hput, hok⟩ := toNumber_eq_ok hnode
    have hcanonical := isCanonical_canonicalText (numberOf node)
    obtain ⟨rebuilt', hput', hok'⟩ := hagain hput hcanonical (canonicalText_numberOf_ne node)
    obtain rfl := Option.some.inj (hput.symm.trans hput')
    exact ⟨_, rebuilt, hok, hput, congrArg Except.ok hcanonical,
      canonicalText_numberOf_ne node, hok'⟩
  · intro text hnode htext hnan
    obtain ⟨between, hput, hok⟩ := replace_eq_ok hnode (.string text) []
    have hself := Node.put?_self (Node.nodeAt?_eq_some.1 hnode)
    obtain ⟨rebuilt, hput', hok'⟩ := hagain hput (Except.ok.inj htext) hnan
    obtain rfl := Option.some.inj (hself.symm.trans hput')
    rw [List.append_nil] at hok
    refine ⟨between, hput, ?_, hok'⟩
    rw [toText, hnode]
    exact hok

/-- A string becomes the number that its text begins with; a number with a canonical text is
kept by way of a string. -/
theorem toNumber_stable_of_items :
    let tree : Node := .array [.string "12 apples", .number "-Infinity"]
    let first : Path := [.field "elements", .index 0]
    let second : Path := [.field "elements", .index 1]
    (∃ rebuilt, toNumber tree first = .ok (.applied .replaced ⟨some rebuilt, some first⟩) ∧
      toNumber rebuilt first = .ok (.applied .replaced ⟨some rebuilt, some first⟩)) ∧
    let between : Node := .array [.string "12 apples", .string "-Infinity"]
    toText tree second = .ok (.applied .replaced ⟨some between, some second⟩) ∧
      toNumber between second = .ok (.applied .replaced ⟨some tree, some second⟩) := by
  intro tree first second
  have hfirst : tree.resolves first = true := by decide
  constructor
  · obtain ⟨⟨stored, rebuilt, hok, -, -, -, hagain⟩, -⟩ := toNumber_stable hfirst (by decide)
    exact ⟨rebuilt, hok, hagain⟩
  · obtain ⟨-, hback⟩ := toNumber_stable (show tree.resolves second = true by decide) (by decide)
    obtain ⟨between, hput, htext, hnumber⟩ := hback "-Infinity" rfl (by decide) (by decide)
    obtain rfl := Option.some.inj hput
    exact ⟨htext, hnumber⟩

end StructuralEditor.Editing
