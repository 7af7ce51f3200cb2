/-
StructuralEditor/Proofs/Numerals.lean

The longest numeral that a text begins with.

The grammar of numerals is a relation here (`IsNumeral`), which says how a
numeral is put together and nothing about how it is found.  The reader takes each
part as far as it goes and never goes back.  It does not have to: what it takes is
a numeral (`Numeral.exists_leading?`), and where a text begins with a numeral, it
takes that and perhaps more (`IsNumeral.leading?`).  The one place where more
could be less is the exponent, which a longer mantissa would swallow or push
away; but its mark is neither a digit nor a point, so the mantissa in front of it
ends there.

So the reader finds the longest numeral, in the only way that it can be taken
(`BeginsWith.unique`), and rounds what it denotes correctly.
-/
import Mathlib.Data.Nat.Digits.Defs
import StructuralEditor.Data.Number
import StructuralEditor.Proofs.CorrectRounding

namespace StructuralEditor.Number

open Text

/-! ### The grammar -/

/-- Whether characters are digits with the given values, by a table of digits. -/
def HaveValues (value? : Char → Option Nat) (ds : List Char) (values : List Nat) : Prop :=
  List.Forall₂ (fun d value => value? d = some value) ds values

/-- The number that digits say, by their values, the most significant first. -/
def saidBy (radix : Nat) (values : List Nat) : Nat :=
  Nat.ofDigits radix values.reverse

/-- An optional sign, and whether it is a minus. -/
inductive IsSign : List Char → Bool → Prop
  | absent : IsSign [] false
  | plus : IsSign ['+'] false
  | minus : IsSign ['-'] true

/-- Digits with an optional point: some before it, or none before it and some
behind it. -/
inductive IsMantissa : List Char → List Nat → List Nat → Prop
  | whole {ds : List Char} {values : List Nat} :
      HaveValues digitValue? ds values → ds ≠ [] → IsMantissa ds values []
  | pointed {ds es : List Char} {values fraction : List Nat} :
      HaveValues digitValue? ds values → ds ≠ [] → HaveValues digitValue? es fraction →
        IsMantissa (ds ++ '.' :: es) values fraction
  | fraction {es : List Char} {fraction : List Nat} :
      HaveValues digitValue? es fraction → es ≠ [] → IsMantissa ('.' :: es) [] fraction

/-- An optional exponent: a mark, an optional sign and some digits. -/
inductive IsExponent : List Char → Int → Prop
  | absent : IsExponent [] 0
  | marked {mark : Char} {sign ds : List Char} {negative : Bool} {values : List Nat} :
      mark = 'e' ∨ mark = 'E' → IsSign sign negative → HaveValues digitValue? ds values → ds ≠ [] →
        IsExponent (mark :: (sign ++ ds))
          (if negative then -(saidBy 10 values : Int) else saidBy 10 values)

/-- A numeral: an optional sign, and then the name of infinity or a mantissa with
an optional exponent. -/
inductive IsNumeral : List Char → Numeral → Prop
  | infinity {sign : List Char} {negative : Bool} :
      IsSign sign negative → IsNumeral (sign ++ Numeral.infinityName) (.infinity negative)
  | decimal {sign mantissa tail : List Char} {negative : Bool} {whole fraction : List Nat}
      {exponent : Int} :
      IsSign sign negative → IsMantissa mantissa whole fraction → IsExponent tail exponent →
        IsNumeral (sign ++ (mantissa ++ tail)) (.decimal negative whole fraction exponent)

theorem foldl_digits_eq (radix : Nat) (values : List Nat) :
    values.foldl (fun n d => radix * n + d) 0 = saidBy radix values := by
  rw [saidBy, Nat.ofDigits_eq_foldr, List.foldr_reverse]
  congr 1
  funext n d
  simp [Nat.add_comm]

theorem natOfDigits_eq (values : List Nat) : natOfDigits values = saidBy 10 values :=
  foldl_digits_eq 10 values

/-! ### Digits -/

section

variable {ds es cs rest : List Char} {values : List Nat}

theorem HaveValues.eq_nil_iff {value? : Char → Option Nat} (h : HaveValues value? ds values) :
    values = [] ↔ ds = [] := by
  cases h <;> simp

theorem HaveValues.append_ne_nil {value? : Char → Option Nat} (h : HaveValues value? ds values)
    (hne : ds ≠ []) (more : List Nat) : values ++ more ≠ [] := by
  intro hnil
  exact hne (h.eq_nil_iff.1 (List.append_eq_nil_iff.1 hnil).1)

theorem HaveValues.head (h : HaveValues digitValue? ds values) :
    ∀ c ∈ ds.head?, isDecimalDigit c = true := by
  cases h with
  | nil => simp
  | cons hd _ =>
    intro c hc
    obtain rfl := Option.some.inj hc
    rw [isDecimalDigit, hd, Option.isSome_some]

namespace Numeral

/-- Digits are read with all digits that follow. -/
theorem leadingDigits_of_haveValues (h : HaveValues digitValue? ds values) (rest : List Char) :
    leadingDigits (ds ++ rest) = (values ++ (leadingDigits rest).1, (leadingDigits rest).2) := by
  induction h with
  | nil => rfl
  | @cons d value ds values hd _ ih =>
    have hdigit : isDecimalDigit d = true := by rw [isDecimalDigit, hd, Option.isSome_some]
    simp only [leadingDigits, Prod.mk.injEq] at ih ⊢
    obtain ⟨hvalues, hrest⟩ := ih
    rw [List.cons_append, List.takeWhile_cons_of_pos hdigit, List.dropWhile_cons_of_pos hdigit,
      List.filterMap_cons_some hd, hvalues, hrest]
    exact ⟨rfl, rfl⟩

theorem leadingDigits_of_head (h : ∀ c ∈ rest.head?, isDecimalDigit c = false) :
    leadingDigits rest = ([], rest) := by
  cases rest with
  | nil => rfl
  | cons c cs => simp [leadingDigits, h c rfl]

/-- What is read as digits are digits, and the rest is what follows. -/
theorem exists_leadingDigits (cs : List Char) :
    ∃ ds, cs = ds ++ (leadingDigits cs).2 ∧ HaveValues digitValue? ds (leadingDigits cs).1 := by
  induction cs with
  | nil => exact ⟨[], rfl, .nil⟩
  | cons c cs ih =>
    rcases hc : digitValue? c with - | value
    · have hdigit : isDecimalDigit c = false := by rw [isDecimalDigit, hc, Option.isSome_none]
      rw [leadingDigits_of_head (by simpa using hdigit)]
      exact ⟨[], rfl, .nil⟩
    · obtain ⟨ds, hcs, hds⟩ := ih
      have hhead : HaveValues digitValue? [c] [value] := .cons hc .nil
      have hread := leadingDigits_of_haveValues hhead cs
      rw [List.singleton_append] at hread
      rw [hread]
      exact ⟨c :: ds, congrArg (c :: ·) hcs, .cons hc hds⟩

theorem leadingDigits_suffix (cs : List Char) : (leadingDigits cs).2 <:+ cs :=
  List.dropWhile_suffix _

end Numeral

end

/-! ### What is read is a numeral -/

namespace Numeral

section

variable {cs rest : List Char} {whole fraction : List Nat}

theorem exists_leadingSign (cs : List Char) :
    ∃ sign, cs = sign ++ (leadingSign cs).2 ∧ IsSign sign (leadingSign cs).1 := by
  unfold leadingSign
  split
  · exact ⟨['-'], rfl, .minus⟩
  · exact ⟨['+'], rfl, .plus⟩
  · exact ⟨[], rfl, .absent⟩

theorem exists_leadingMantissa? (h : leadingMantissa? cs = some (whole, fraction, rest)) :
    ∃ mantissa, cs = mantissa ++ rest ∧ IsMantissa mantissa whole fraction := by
  obtain ⟨ds, hds, hwhole⟩ := exists_leadingDigits cs
  unfold leadingMantissa? at h
  generalize leadingDigits cs = read at *
  obtain ⟨values, tail⟩ := read
  simp only at h hds hwhole
  subst hds
  split at h
  · next tail' =>
    obtain ⟨es, hes, hfraction⟩ := exists_leadingDigits tail'
    generalize leadingDigits tail' = read at *
    simp only [Option.ite_none_left_eq_some, Bool.and_eq_true, List.isEmpty_iff,
      Option.some.injEq, Prod.mk.injEq] at h
    obtain ⟨hsome, rfl, rfl, rfl⟩ := h
    rw [hes]
    rcases eq_or_ne ds [] with rfl | hne
    · obtain rfl := hwhole.eq_nil_iff.2 rfl
      have hfrac : es ≠ [] := fun hnil => hsome ⟨rfl, hfraction.eq_nil_iff.2 hnil⟩
      exact ⟨'.' :: es, rfl, .fraction hfraction hfrac⟩
    · exact ⟨ds ++ '.' :: es, by simp, .pointed hwhole hne hfraction⟩
  · simp only [Option.ite_none_left_eq_some, List.isEmpty_iff, Option.some.injEq,
      Prod.mk.injEq] at h
    obtain ⟨hsome, rfl, rfl, rfl⟩ := h
    exact ⟨ds, rfl, .whole hwhole (mt hwhole.eq_nil_iff.2 hsome)⟩

theorem exists_leadingExponent (cs : List Char) :
    ∃ tail, cs = tail ++ (leadingExponent cs).2 ∧ IsExponent tail (leadingExponent cs).1 := by
  unfold leadingExponent
  split
  · exact ⟨[], rfl, .absent⟩
  · next mark more =>
    split
    · next hmark =>
      obtain ⟨sign, hmore, hsign⟩ := exists_leadingSign more
      obtain ⟨ds, hafter, hds⟩ := exists_leadingDigits (leadingSign more).2
      generalize leadingSign more = read at *
      obtain ⟨negative, after⟩ := read
      simp only at hmore hsign hafter hds ⊢
      generalize leadingDigits after = read at *
      obtain ⟨values, rest⟩ := read
      simp only at hafter hds ⊢
      split
      · exact ⟨[], rfl, .absent⟩
      · next hread hsome =>
        obtain ⟨rfl, rfl⟩ := Prod.mk.inj hsome
        refine ⟨mark :: (sign ++ ds), by simp [hmore, hafter], ?_⟩
        rw [natOfDigits_eq]
        exact .marked hmark hsign hds (mt hds.eq_nil_iff.2 hread)
    · exact ⟨[], rfl, .absent⟩

/-- **What is read as the longest numeral is a numeral.** -/
theorem exists_leading? {n : Numeral} (h : leading? cs = some (n, rest)) :
    ∃ w, cs = w ++ rest ∧ IsNumeral w n := by
  obtain ⟨sign, hcs, hsign⟩ := exists_leadingSign cs
  unfold leading? at h
  generalize leadingSign cs = read at *
  obtain ⟨negative, unsigned⟩ := read
  simp only at h hcs hsign
  split at h
  · next hname =>
    obtain ⟨tail, htail⟩ := List.isPrefixOf_iff_prefix.1 hname
    simp only [← htail, List.drop_left, Option.some.injEq, Prod.mk.injEq] at h
    obtain ⟨rfl, rfl⟩ := h
    exact ⟨sign ++ infinityName, by rw [hcs, ← htail, List.append_assoc], .infinity hsign⟩
  · simp only [Option.map_eq_some_iff, Prod.mk.injEq, Prod.exists] at h
    obtain ⟨whole, fraction, tail, hread, rfl, rfl⟩ := h
    obtain ⟨mantissa, rfl, hmantissa⟩ := exists_leadingMantissa? hread
    obtain ⟨marked, htail, hmarked⟩ := exists_leadingExponent tail
    refine ⟨sign ++ (mantissa ++ marked), ?_, .decimal hsign hmantissa hmarked⟩
    rw [List.append_assoc, List.append_assoc, ← htail, hcs]

end

end Numeral

/-! ### Numerals are read as far as they go -/

section

variable {sign mantissa tail w body : List Char} {negative : Bool} {whole fraction : List Nat}
  {exponent : Int}

theorem IsSign.leadingSign (h : IsSign sign negative)
    (hbody : ∀ c ∈ body.head?, c ≠ '-' ∧ c ≠ '+') :
    Numeral.leadingSign (sign ++ body) = (negative, body) := by
  cases h with
  | absent =>
    rw [List.nil_append]
    unfold Numeral.leadingSign
    split
    · exact absurd rfl (hbody '-' rfl).1
    · exact absurd rfl (hbody '+' rfl).2
    · rfl
  | plus => rfl
  | minus => rfl

/-- A mantissa begins with a digit or with the point. -/
theorem IsMantissa.head (h : IsMantissa mantissa whole fraction) :
    ∃ c cs, mantissa = c :: cs ∧ (isDecimalDigit c = true ∨ c = '.') := by
  cases h with
  | whole hvalues hne =>
    obtain ⟨c, cs, rfl⟩ := List.exists_cons_of_ne_nil hne
    exact ⟨c, cs, rfl, .inl (hvalues.head c rfl)⟩
  | @pointed ds es _ _ hvalues hne hfraction =>
    obtain ⟨c, cs, rfl⟩ := List.exists_cons_of_ne_nil hne
    exact ⟨c, cs ++ '.' :: es, rfl, .inl (hvalues.head c rfl)⟩
  | @fraction es _ _ _ => exact ⟨'.', es, rfl, .inr rfl⟩

/-- A point among digits is read with all digits that follow. -/
theorem Numeral.leadingMantissa?_point {ds es : List Char}
    (hwhole : HaveValues digitValue? ds whole) (hfraction : HaveValues digitValue? es fraction)
    (hne : ds ≠ [] ∨ es ≠ []) (tail : List Char) :
    leadingMantissa? (ds ++ '.' :: (es ++ tail)) =
      some (whole, fraction ++ (leadingDigits tail).1, (leadingDigits tail).2) := by
  have hpoint : ∀ c ∈ ('.' :: (es ++ tail)).head?, isDecimalDigit c = false := by
    intro c hc
    obtain rfl := Option.some.inj hc
    decide
  have hsome : (whole.isEmpty && (fraction ++ (leadingDigits tail).1).isEmpty) = false := by
    rcases hne with hds | hes
    · rw [List.isEmpty_eq_false_iff.2 (mt hwhole.eq_nil_iff.1 hds), Bool.false_and]
    · rw [List.isEmpty_eq_false_iff.2 (hfraction.append_ne_nil hes _), Bool.and_false]
  unfold leadingMantissa?
  rw [leadingDigits_of_haveValues hwhole, leadingDigits_of_head hpoint]
  simp only [List.append_nil]
  rw [leadingDigits_of_haveValues hfraction]
  simp only [hsome, Bool.false_eq_true, if_false]

/-- A mantissa in front of something is read, perhaps together with the beginning of that; if
that cannot go on with it, as it stands. -/
theorem IsMantissa.leadingMantissa? (h : IsMantissa mantissa whole fraction) (tail : List Char) :
    ∃ whole' fraction' rest,
      Numeral.leadingMantissa? (mantissa ++ tail) = some (whole', fraction', rest) ∧
      rest <:+ tail ∧
      ((∀ c ∈ tail.head?, isDecimalDigit c = false ∧ c ≠ '.') →
        whole' = whole ∧ fraction' = fraction ∧ rest = tail) := by
  have hmore := Numeral.leadingDigits_suffix tail
  have hnone := @Numeral.leadingDigits_of_head tail
  cases h with
  | whole hvalues hne =>
    unfold Numeral.leadingMantissa?
    rw [Numeral.leadingDigits_of_haveValues hvalues]
    generalize Numeral.leadingDigits tail = read at *
    obtain ⟨more, rest⟩ := read
    have hsome : (whole ++ more).isEmpty = false :=
      List.isEmpty_eq_false_iff.2 (hvalues.append_ne_nil hne more)
    simp only [hsome, Bool.false_and, Bool.false_eq_true, if_false] at hmore ⊢
    split
    · next after =>
      refine ⟨_, _, _, rfl, ?_, ?_⟩
      · exact (Numeral.leadingDigits_suffix after).trans ((List.suffix_cons _ _).trans hmore)
      · intro htail
        -- the point would be the beginning of what follows
        obtain ⟨-, rfl⟩ := Prod.mk.inj (hnone fun c hc => (htail c hc).1)
        exact absurd rfl (htail '.' rfl).2
    · refine ⟨_, _, _, rfl, hmore, ?_⟩
      intro htail
      obtain ⟨rfl, rfl⟩ := Prod.mk.inj (hnone fun c hc => (htail c hc).1)
      exact ⟨List.append_nil _, rfl, rfl⟩
  | pointed hvalues hne hfraction =>
    rw [List.append_assoc, List.cons_append,
      Numeral.leadingMantissa?_point hvalues hfraction (.inl hne)]
    refine ⟨_, _, _, rfl, hmore, ?_⟩
    intro htail
    rw [hnone fun c hc => (htail c hc).1]
    exact ⟨rfl, List.append_nil _, rfl⟩
  | fraction hfraction hne =>
    refine ⟨_, _, _, Numeral.leadingMantissa?_point .nil hfraction (.inr hne) tail, hmore, ?_⟩
    intro htail
    rw [hnone fun c hc => (htail c hc).1]
    exact ⟨rfl, List.append_nil _, rfl⟩

theorem leadingExponent_suffix (cs : List Char) : (Numeral.leadingExponent cs).2 <:+ cs := by
  obtain ⟨tail, hcs, -⟩ := Numeral.exists_leadingExponent cs
  exact ⟨tail, hcs.symm⟩

/-- An exponent in front of something is read with the digits that follow. -/
theorem IsExponent.leadingExponent (h : IsExponent tail exponent) (rest : List Char) :
    (Numeral.leadingExponent (tail ++ rest)).2 <:+ rest ∧
      (rest = [] → (Numeral.leadingExponent (tail ++ rest)).1 = exponent) := by
  cases h with
  | absent =>
    refine ⟨leadingExponent_suffix rest, ?_⟩
    rintro rfl
    rfl
  | @marked mark sign ds negative values hmark hsign hvalues hne =>
    have hbody : ∀ c ∈ (ds ++ rest).head?, c ≠ '-' ∧ c ≠ '+' := by
      obtain ⟨d, ds, rfl⟩ := List.exists_cons_of_ne_nil hne
      intro c hc
      obtain rfl := Option.some.inj hc
      have hdigit := hvalues.head d rfl
      constructor <;> rintro rfl <;> exact absurd hdigit (by decide)
    rw [List.cons_append, List.append_assoc]
    unfold Numeral.leadingExponent
    simp only [if_pos hmark, hsign.leadingSign hbody, Numeral.leadingDigits_of_haveValues hvalues]
    split
    · next heq => exact absurd (Prod.mk.inj heq).1 (hvalues.append_ne_nil hne _)
    · next heq =>
      obtain ⟨rfl, rfl⟩ := Prod.mk.inj heq
      refine ⟨Numeral.leadingDigits_suffix rest, ?_⟩
      rintro rfl
      rw [natOfDigits_eq]
      simp [Numeral.leadingDigits]

/-- **A numeral in front of something is read**, perhaps together with the beginning of that. -/
theorem IsNumeral.leading? {n : Numeral} (h : IsNumeral w n) (rest : List Char) :
    ∃ n' rest', Numeral.leading? (w ++ rest) = some (n', rest') ∧ rest' <:+ rest ∧
      (rest = [] → n' = n) := by
  unfold Numeral.leading?
  cases h with
  | @infinity sign negative hsign =>
    have hbody : ∀ c ∈ (Numeral.infinityName ++ rest).head?, c ≠ '-' ∧ c ≠ '+' := by
      intro c hc
      obtain rfl := Option.some.inj hc
      decide
    have hname : Numeral.infinityName.isPrefixOf (Numeral.infinityName ++ rest) = true :=
      List.isPrefixOf_iff_prefix.2 (List.prefix_append ..)
    rw [List.append_assoc, hsign.leadingSign hbody]
    simp only [hname, if_true, List.drop_left]
    exact ⟨_, rest, rfl, List.suffix_refl rest, fun _ => rfl⟩
  | @decimal sign mantissa tail negative whole fraction exponent hsign hmantissa hexponent =>
    obtain ⟨c, cs, hcons, hc⟩ := hmantissa.head
    have hne : c ≠ '-' ∧ c ≠ '+' ∧ c ≠ 'I' := by
      refine ⟨?_, ?_, ?_⟩ <;> rintro rfl <;> exact absurd hc (by decide)
    have hbody : ∀ d ∈ (mantissa ++ (tail ++ rest)).head?, d ≠ '-' ∧ d ≠ '+' := by
      rw [hcons]
      intro d hd
      obtain rfl := Option.some.inj hd
      exact ⟨hne.1, hne.2.1⟩
    have hname : Numeral.infinityName.isPrefixOf (mantissa ++ (tail ++ rest)) = false := by
      rw [hcons]
      simp [Numeral.infinityName, List.isPrefixOf, hne.2.2.symm]
    rw [List.append_assoc, List.append_assoc, hsign.leadingSign hbody]
    simp only [hname, Bool.false_eq_true, if_false]
    obtain ⟨whole', fraction', rest', hread, hrest, hexact⟩ :=
      hmantissa.leadingMantissa? (tail ++ rest)
    rw [hread, Option.map_some]
    simp only
    cases hexponent with
    | absent =>
      refine ⟨_, _, rfl, (leadingExponent_suffix rest').trans hrest, ?_⟩
      rintro rfl
      obtain ⟨rfl, rfl, rfl⟩ := hexact (by simp)
      rfl
    | @marked mark _ _ _ _ hmark hesign hvalues hds =>
      have hexponent := IsExponent.marked hmark hesign hvalues hds
      -- the mark of the exponent ends the mantissa
      have hmark : isDecimalDigit mark = false ∧ mark ≠ '.' := by
        rcases hmark with rfl | rfl <;> decide
      obtain ⟨rfl, rfl, rfl⟩ := hexact (by simpa using hmark)
      obtain ⟨hafter, hvalue⟩ := hexponent.leadingExponent rest
      refine ⟨_, _, rfl, hafter, ?_⟩
      rintro rfl
      rw [hvalue rfl]

/-- A numeral is read as a whole, … -/
theorem IsNumeral.leading?_self {n : Numeral} (h : IsNumeral w n) :
    Numeral.leading? w = some (n, []) := by
  obtain ⟨n', rest, hread, hrest, hn⟩ := h.leading? []
  rw [List.append_nil, List.suffix_nil.1 hrest, hn rfl] at hread
  exact hread

/-- … and so it can be taken in one way only. -/
theorem IsNumeral.unique {n m : Numeral} (hn : IsNumeral w n) (hm : IsNumeral w m) : n = m := by
  have heq := hn.leading?_self.symm.trans hm.leading?_self
  exact (Prod.mk.inj (Option.some.inj heq)).1

end

/-! ### The longest numeral -/

/-- Whether a text begins with a numeral, and with no longer one. -/
structure BeginsWith (cs w : List Char) (n : Numeral) : Prop where
  leads : w <+: cs
  isNumeral : IsNumeral w n
  longest : ∀ v m, v <+: cs → IsNumeral v m → v.length ≤ w.length

theorem exists_leading?_of_numeral {cs v : List Char} {m : Numeral} (hv : v <+: cs)
    (hm : IsNumeral v m) :
    ∃ n rest, Numeral.leading? cs = some (n, rest) ∧ v.length + rest.length ≤ cs.length := by
  obtain ⟨after, rfl⟩ := hv
  obtain ⟨n, rest, hread, hrest, -⟩ := hm.leading? after
  refine ⟨n, rest, hread, ?_⟩
  have hlength := hrest.length_le
  rw [List.length_append]
  omega

theorem beginsWith_of_leading? {cs rest : List Char} {n : Numeral}
    (h : Numeral.leading? cs = some (n, rest)) : ∃ w, BeginsWith cs w n := by
  obtain ⟨w, hcs, hw⟩ := Numeral.exists_leading? h
  refine ⟨w, ⟨rest, hcs.symm⟩, hw, ?_⟩
  intro v m hv hm
  obtain ⟨n', rest', hread, hlength⟩ := exists_leading?_of_numeral hv hm
  obtain ⟨rfl, rfl⟩ := Prod.mk.inj (Option.some.inj (h.symm.trans hread))
  rw [hcs, List.length_append] at hlength
  omega

theorem BeginsWith.unique {cs v w : List Char} {m n : Numeral} (hv : BeginsWith cs v m)
    (hw : BeginsWith cs w n) : m = n := by
  have hlength := Nat.le_antisymm (hw.longest v m hv.leads hv.isNumeral)
    (hv.longest w n hw.leads hw.isNumeral)
  obtain rfl := (List.prefix_of_prefix_length_le hv.leads hw.leads hlength.le).eq_of_length hlength
  exact hv.isNumeral.unique hw.isNumeral

/-! ### What a numeral denotes -/

/-- What a numeral denotes: an infinity, or the double nearest to the number that its
digits and its exponent say. -/
def Numeral.Denotes : Numeral → Double → Prop
  | .infinity negative, x => x = .infinite negative
  | .decimal negative whole fraction exponent, x =>
    x.IsRounded negative
      (Decimal.value ⟨saidBy 10 (whole ++ fraction), exponent - fraction.length⟩)

/-- A numeral denotes its value and nothing else. -/
theorem Numeral.denotes_iff {n : Numeral} {x : Double} : n.Denotes x ↔ x = n.value := by
  cases n with
  | infinity negative => rfl
  | decimal negative whole fraction exponent =>
    have hvalue := Double.isRounded_ofDecimal negative
      ⟨saidBy 10 (whole ++ fraction), exponent - fraction.length⟩
    rw [value, natOfDigits_eq]
    constructor
    · intro hx
      exact hx.unique hvalue
    · rintro rfl
      exact hvalue

/-- **A text is read as the longest numeral it begins with**, blanks aside.  If it begins with
numerals, one of them is the longest and the reading is what that denotes; if with none, the
reading is no number.  No text is refused. -/
theorem leadingNumber_of_text (s : String) :
    ∃ x, Data.leadingNumber (.text s) = .ok x ∧
      let cs := s.toList.dropWhile isBlank
      ((∃ v m, v <+: cs ∧ IsNumeral v m) →
        (∃ w n, BeginsWith cs w n) ∧ ∀ w n, BeginsWith cs w n → ∀ y, n.Denotes y ↔ y = x) ∧
      ((¬ ∃ v m, v <+: cs ∧ IsNumeral v m) → x = .notANumber) := by
  refine ⟨.ofLeading s, rfl, ?_⟩
  intro cs
  unfold Double.ofLeading
  rcases hread : Numeral.leading? cs with - | ⟨n, rest⟩
  · refine ⟨?_, fun _ => rfl⟩
    rintro ⟨v, m, hv, hm⟩
    obtain ⟨n, rest, hsome, -⟩ := exists_leading?_of_numeral hv hm
    rw [hread] at hsome
    cases hsome
  · obtain ⟨w, hw⟩ := beginsWith_of_leading? hread
    refine ⟨fun _ => ⟨⟨w, n, hw⟩, ?_⟩, fun hnone => absurd ⟨w, n, hw.leads, hw.isNumeral⟩ hnone⟩
    intro w' n' hw' y
    rw [hw'.unique hw]
    exact Numeral.denotes_iff

/-- Digits of two scripts after a no-break space, and a mark that is no exponent any more. -/
theorem leadingNumber_of_mixed_digits :
    let cs := ['-', '\u0661', '2', '.', '5', 'e', '+', '3', 'e', '-']
    cs = (String.ofList ('\u00a0' :: cs)).toList.dropWhile isBlank ∧
    ∃ x w, Data.leadingNumber (.text (String.ofList ('\u00a0' :: cs))) = .ok x ∧
      BeginsWith cs w (.decimal true [1, 2] [5] 3) ∧
      (Numeral.decimal true [1, 2] [5] 3).Denotes x := by
  intro cs
  have hcs : cs = (String.ofList ('\u00a0' :: cs)).toList.dropWhile isBlank := by
    rw [String.toList_ofList]
    decide
  obtain ⟨w, hw⟩ := beginsWith_of_leading?
    (show Numeral.leading? cs = some (.decimal true [1, 2] [5] 3, ['e', '-']) by decide)
  obtain ⟨x, hx, hsome, -⟩ := leadingNumber_of_text (String.ofList ('\u00a0' :: cs))
  rw [← hcs] at hsome
  obtain ⟨-, hdenotes⟩ := hsome ⟨w, _, hw.leads, hw.isNumeral⟩
  exact ⟨hcs, x, w, hx, hw, (hdenotes w _ hw x).2 rfl⟩

end StructuralEditor.Number
