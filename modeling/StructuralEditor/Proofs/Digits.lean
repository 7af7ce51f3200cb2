/-
StructuralEditor/Proofs/Digits.lean

Digits in text.  A number and its decimal digits tell each other
(`toDigits_ofDigitChars`), as long as no zero stands in front; and digits around
a point are told by the decimal they say, as long as no zero stands at either
end (`Digits.IsReduced.toDigits_toDecimal`).
-/
import Mathlib.Data.List.DropRight
import StructuralEditor.Number.Shortest

namespace StructuralEditor.Number

-- the powers of the core library, whatever else is imported
attribute [local instance (2000)] instPowNat

/-! ### ASCII digits -/

/-- Whether there are only ASCII digits. -/
def AreDigits (cs : List Char) : Prop :=
  ∀ c ∈ cs, c.isDigit = true

/-- A property of the ten digits is one of every digit. -/
theorem of_isDigit (p : Char → Prop) (h : ∀ n < 10, p (Char.ofNat (48 + n))) {c : Char}
    (hc : c.isDigit = true) : p c := by
  simp only [Char.isDigit, Bool.and_eq_true, decide_eq_true_eq, ge_iff_le,
    UInt32.le_iff_toNat_le] at hc
  have hlow : 48 ≤ c.toNat := hc.1
  have hhigh : c.toNat ≤ 57 := hc.2
  have hp := h (c.toNat - 48) (by omega)
  rwa [show 48 + (c.toNat - 48) = c.toNat by omega, Char.ofNat_toNat] at hp

namespace AreDigits

variable {cs ds : List Char}

theorem nil : AreDigits [] := by simp [AreDigits]

theorem append (hcs : AreDigits cs) (hds : AreDigits ds) : AreDigits (cs ++ ds) := by
  intro c hc
  rcases List.mem_append.1 hc with h | h
  · exact hcs c h
  · exact hds c h

theorem replicate_zero (n : Nat) : AreDigits (List.replicate n '0') := by
  intro c hc
  rw [List.eq_of_mem_replicate hc]
  decide

theorem mono (hcs : AreDigits cs) (h : ds ⊆ cs) : AreDigits ds := by
  intro c hc
  exact hcs c (h hc)

theorem toDigits (n : Nat) : AreDigits (Nat.toDigits 10 n) := by
  intro c hc
  exact Nat.isDigit_of_mem_toDigits (by decide) (by decide) hc

end AreDigits

theorem ofDigitChars_lt {ds : List Char} (hds : AreDigits ds) :
    Nat.ofDigitChars 10 ds 0 < 10 ^ ds.length := by
  induction ds with
  | nil => simp
  | cons d ds ih =>
    have hd := of_isDigit (fun d => d.toNat - '0'.toNat ≤ 9) (by decide) (hds d (by simp))
    have hrest := ih (hds.mono (List.subset_cons_self ..))
    rw [Nat.ofDigitChars_cons, Nat.ofDigitChars_eq_ofDigitChars_zero, List.length_cons,
      Nat.pow_succ, Nat.mul_zero, Nat.zero_add]
    have hfirst := Nat.mul_le_mul_left (10 ^ ds.length) hd
    omega

/-- Zeros at the end scale the number that digits say. -/
theorem ofDigitChars_append_zeros (ds : List Char) (n : Nat) :
    Nat.ofDigitChars 10 (ds ++ List.replicate n '0') 0 = Nat.ofDigitChars 10 ds 0 * 10 ^ n := by
  rw [Nat.ofDigitChars_append, Nat.ofDigitChars_replicate_zero, Nat.mul_comm]

/-- Zeros in front say nothing. -/
theorem ofDigitChars_zeros_append (n : Nat) (ds : List Char) :
    Nat.ofDigitChars 10 (List.replicate n '0' ++ ds) 0 = Nat.ofDigitChars 10 ds 0 := by
  rw [Nat.ofDigitChars_append, Nat.ofDigitChars_replicate_zero, Nat.mul_zero]

/-! ### Written digits -/

/-- Only zero is written with a zero in front. -/
theorem exists_toDigits_cons {n : Nat} (hn : n ≠ 0) :
    ∃ d ds, Nat.toDigits 10 n = d :: ds ∧ d ≠ '0' := by
  induction n using Nat.strongRecOn with
  | ind n ih =>
    rw [Nat.toDigits_eq_if (by decide)]
    split
    · next hlt =>
      have hdigit : ∀ n < 10, n ≠ 0 → n.digitChar ≠ '0' := by decide
      exact ⟨_, [], rfl, hdigit n hlt hn⟩
    · next hge =>
      obtain ⟨d, ds, h, hd⟩ := ih (n / 10) (by omega) (by omega)
      exact ⟨d, ds ++ [Nat.digitChar (n % 10)], by rw [h, List.cons_append], hd⟩

/-- Digits without a zero in front are those of their number. -/
theorem toDigits_ofDigitChars {ds : List Char} (hds : AreDigits ds) (hne : ds ≠ [])
    (hhead : ds.head? ≠ some '0') : Nat.toDigits 10 (Nat.ofDigitChars 10 ds 0) = ds := by
  induction ds using List.reverseRecOn with
  | nil => exact absurd rfl hne
  | append_singleton ds c ih =>
    have hc : c.isDigit = true := hds c (by simp)
    have hvalue := of_isDigit (fun c => c.toNat - '0'.toNat < 10 ∧
      Nat.digitChar (c.toNat - '0'.toNat) = c ∧ (c ≠ '0' → c.toNat - '0'.toNat ≠ 0))
      (by decide) hc
    rw [Nat.ofDigitChars_append, Nat.ofDigitChars_cons, Nat.ofDigitChars_nil,
      Nat.toDigits_eq_if (by decide)]
    generalize c.toNat - '0'.toNat = v at hvalue
    obtain ⟨hlt, hchar, -⟩ := hvalue
    rcases List.eq_nil_or_concat ds with rfl | hconcat
    · simp [hlt, hchar]
    · have hne : ds ≠ [] := by
        obtain ⟨init, last, rfl⟩ := hconcat
        simp
      have hhead : ds.head? ≠ some '0' := by
        rwa [List.head?_append_of_ne_nil _ hne] at hhead
      have ih := ih (hds.mono (List.subset_append_left ..)) hne hhead
      -- the digits before the last one are not those of zero
      have hpos : Nat.ofDigitChars 10 ds 0 ≠ 0 := by
        intro hzero
        rw [hzero] at ih
        exact hhead (by rw [← ih]; rfl)
      generalize Nat.ofDigitChars 10 ds 0 = n at *
      rw [if_neg (by omega), show (10 * n + v) / 10 = n by omega,
        show (10 * n + v) % 10 = v by omega, ih, hchar]

/-! ### Zeros at the end -/

/-- Zeros at the end of a number are zeros at the end of its digits. -/
theorem toDigits_mul_pow {n : Nat} (hn : n ≠ 0) (zeros : Nat) :
    Nat.toDigits 10 (n * 10 ^ zeros) = Nat.toDigits 10 n ++ List.replicate zeros '0' := by
  have hdigits := AreDigits.toDigits n
  obtain ⟨d, ds, hcons, hd⟩ := exists_toDigits_cons hn
  rw [← Nat.ofDigitChars_ten_toDigits (n := n), ← ofDigitChars_append_zeros,
    Nat.ofDigitChars_ten_toDigits]
  apply toDigits_ofDigitChars (hdigits.append (.replicate_zero zeros))
  · simp [hcons]
  · simp [hcons, hd]

namespace Digits

/-- The decimal that digits say. -/
def toDecimal (d : Digits) : Decimal :=
  ⟨Nat.ofDigitChars 10 d.digits 0, d.point - d.digits.length⟩

/-- Digits are reduced if no zero stands at either end. -/
structure IsReduced (d : Digits) : Prop where
  areDigits : AreDigits d.digits
  ne_nil : d.digits ≠ []
  head_ne_zero : d.digits.head? ≠ some '0'
  last_ne_zero : d.digits.getLast? ≠ some '0'

variable {d : Digits}

/-- Reduced digits are those of the decimal they say. -/
theorem IsReduced.toDigits_toDecimal (h : d.IsReduced) : d.toDecimal.toDigits = d := by
  have hdrop : d.digits.rdropWhile (· == '0') = d.digits := by
    rw [List.rdropWhile_eq_self_iff]
    intro hne
    have hlast := h.last_ne_zero
    rw [List.getLast?_eq_some_getLast hne] at hlast
    simpa using hlast
  rw [List.rdropWhile] at hdrop
  rw [toDecimal, Decimal.toDigits]
  simp only [toDigits_ofDigitChars h.areDigits h.ne_nil h.head_ne_zero, hdrop]
  rw [show (d.digits.length : ℤ) + (d.point - d.digits.length) = d.point by omega]

theorem IsReduced.digits_toDecimal_ne_zero (h : d.IsReduced) : d.toDecimal.digits ≠ 0 := by
  intro hzero
  have hdigits := toDigits_ofDigitChars h.areDigits h.ne_nil h.head_ne_zero
  rw [toDecimal] at hzero
  simp only at hzero
  rw [hzero] at hdigits
  exact h.head_ne_zero (by rw [← hdigits]; rfl)

end Digits

namespace Decimal

theorem digits_toDigits (d : Decimal) :
    d.toDigits.digits = (Nat.toDigits 10 d.digits).rdropWhile (· == '0') :=
  rfl

/-- The digits of a decimal are its digits without the zeros at their end. -/
theorem exists_zeros (d : Decimal) :
    ∃ zeros, Nat.toDigits 10 d.digits = d.toDigits.digits ++ List.replicate zeros '0' := by
  refine ⟨((Nat.toDigits 10 d.digits).rtakeWhile (· == '0')).length, ?_⟩
  have hzeros := List.eq_replicate_of_mem fun c hc =>
    eq_of_beq (List.mem_rtakeWhile_imp (p := (· == '0')) (l := Nat.toDigits 10 d.digits) hc)
  rw [← hzeros, digits_toDigits, List.rdropWhile_append_rtakeWhile]

theorem isReduced_toDigits {d : Decimal} (hd : d.digits ≠ 0) : d.toDigits.IsReduced := by
  obtain ⟨zeros, hzeros⟩ := d.exists_zeros
  obtain ⟨first, rest, hcons, hfirst⟩ := exists_toDigits_cons hd
  have hne : d.toDigits.digits ≠ [] := by
    intro hnil
    rw [hnil, hcons] at hzeros
    cases zeros with
    | zero => cases hzeros
    | succ n => exact hfirst (List.cons.inj hzeros).1
  refine ⟨?_, hne, ?_, ?_⟩
  · have hall := AreDigits.toDigits d.digits
    rw [hzeros] at hall
    exact hall.mono (List.subset_append_left ..)
  · rw [← List.head?_append_of_ne_nil _ hne, ← hzeros, hcons]
    simpa using hfirst
  · rw [List.getLast?_eq_some_getLast hne]
    intro hlast
    exact List.rdropWhile_last_not (· == '0') _ hne (beq_iff_eq.2 (Option.some.inj hlast))

/-- The digits of a decimal other than zero: at least one, and no zero in front. -/
theorem toDigits_cons {d : Decimal} (hd : d.digits ≠ 0) :
    ∃ first rest, d.toDigits.digits = first :: rest ∧ AreDigits (first :: rest) ∧
      first ≠ '0' := by
  have hreduced := isReduced_toDigits hd
  obtain ⟨first, rest, hcons⟩ := List.exists_cons_of_ne_nil hreduced.ne_nil
  have hall := hreduced.areDigits
  have hhead := hreduced.head_ne_zero
  rw [hcons] at hall hhead
  exact ⟨first, rest, hcons, hall, by simpa using hhead⟩

/-- Zeros at the end of the digits count like an exponent. -/
theorem toDigits_shift {n : Nat} (hn : n ≠ 0) (zeros : Nat) (e : ℤ) :
    (⟨n * 10 ^ zeros, e⟩ : Decimal).toDigits = (⟨n, e + zeros⟩ : Decimal).toDigits := by
  have hdrop : (Nat.toDigits 10 n ++ List.replicate zeros '0').rdropWhile (· == '0') =
      (Nat.toDigits 10 n).rdropWhile (· == '0') := by
    rw [List.rdropWhile, List.reverse_append, List.dropWhile_append_of_pos (by simp),
      List.rdropWhile]
  rw [toDigits, toDigits]
  simp only [toDigits_mul_pow hn, Digits.mk.injEq]
  refine ⟨hdrop, ?_⟩
  simp only [List.length_append, List.length_replicate]
  omega

/-- The digits of a decimal say its number, up to the zeros that they drop. -/
theorem exists_zeros_toDigits (d : Decimal) :
    ∃ zeros : Nat, d.toDigits.toDecimal.digits * 10 ^ zeros = d.digits ∧
      d.toDigits.toDecimal.exponent = d.exponent + zeros := by
  obtain ⟨zeros, hzeros⟩ := d.exists_zeros
  refine ⟨zeros, ?_, ?_⟩
  · rw [Digits.toDecimal, ← ofDigitChars_append_zeros, ← hzeros, Nat.ofDigitChars_ten_toDigits]
  · have hlength := congrArg List.length hzeros
    rw [List.length_append, List.length_replicate] at hlength
    simp only [Digits.toDecimal, toDigits] at hlength ⊢
    omega

/-- The power of ten that follows the numbers of `n` digits has one digit, and these have
at most `n`. -/
theorem length_toDigits_le {d : Decimal} {n : Nat} (hn : 1 ≤ n) (hd : d.digits ≤ 10 ^ n) :
    d.toDigits.digits.length ≤ n := by
  rcases Nat.lt_or_eq_of_le hd with hlt | heq
  · obtain ⟨zeros, hzeros⟩ := d.exists_zeros
    have hlength := congrArg List.length hzeros
    rw [List.length_append] at hlength
    have hcount := (Nat.length_toDigits_le_iff (b := 10) (by decide) hn).2 hlt
    omega
  · have hshift := toDigits_shift Nat.one_ne_zero n d.exponent
    rw [Nat.one_mul, ← heq] at hshift
    have hone : Nat.toDigits 10 1 = ['1'] := by decide
    rw [hshift, digits_toDigits, hone]
    exact hn

end Decimal

end StructuralEditor.Number
