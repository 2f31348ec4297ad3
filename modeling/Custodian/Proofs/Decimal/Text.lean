import Custodian.Error

/-!
# Reading a written decimal

A decimal that is written and read again is the same, scale included, except that a zero
loses its sign (`readDecimal_toText`). Written digits are followed through the reader in two
parts: those before the point move only the mantissa, those after it also count for the
scale. Rounding never comes up, since scale 28 can only be reached with the last digit.
-/

namespace Custodian.Decimal

-- Powers are those of the core library, whatever else is in scope; for that a numeral as an
-- exponent has its type.
attribute [local instance(1100)] instPowNat

open Custodian.Text (digit?)

/-! ## Digits -/

theorem digit?_of_isDigit {c : Char} (h : c.isDigit = true) :
    digit? c = some (c.toNat - '0'.toNat) := by
  rw [Char.isDigit, Bool.and_eq_true, decide_eq_true_eq, decide_eq_true_eq] at h
  unfold digit?
  rw [if_pos]
  exact h

/-- More digits make the number no smaller. -/
theorem le_ofDigitChars (digits : List Char) (n : Nat) : n ≤ Nat.ofDigitChars 10 digits n := by
  rw [Nat.ofDigitChars_eq_ofDigitChars_zero]
  have : 1 * n ≤ 10 ^ digits.length * n :=
    Nat.mul_le_mul_right n (Nat.pow_pos (by decide))
  omega

theorem isDigit_of_mem_paddedDigits {n width : Nat} {c : Char} (h : c ∈ paddedDigits n width) :
    c.isDigit = true := by
  unfold paddedDigits at h
  rcases List.mem_append.mp h with h | h
  · rw [List.eq_of_mem_replicate h]
    decide
  · exact Nat.isDigit_of_mem_toDigits (by decide) (by decide) h

theorem ofDigitChars_paddedDigits (n width : Nat) :
    Nat.ofDigitChars 10 (paddedDigits n width) 0 = n := by
  unfold paddedDigits
  rw [Nat.ofDigitChars_append, Nat.ofDigitChars_replicate_zero, Nat.mul_zero,
    Nat.ofDigitChars_ten_toDigits]

theorem le_length_paddedDigits (n width : Nat) : width ≤ (paddedDigits n width).length := by
  unfold paddedDigits
  rw [List.length_append, List.length_replicate]
  omega

/-! ## Following the reader -/

/-- Decimals of the same parts are the same. -/
theorem eq_of_parts {a b : Decimal} (hneg : a.negative = b.negative)
    (hmantissa : a.mantissa = b.mantissa) (hscale : a.scale = b.scale) : a = b := by
  obtain ⟨n, m, s, hm, hs⟩ := a
  obtain ⟨n', m', s', hm', hs'⟩ := b
  cases hneg
  cases hmantissa
  cases hscale
  rfl

/-- At the end of the text the value is what has been read. -/
theorem readPositional_nil {st : Reading} (h : st.digits = true) :
    readPositional st [] = .ok st.value := by
  rw [readPositional, if_pos h]

/-- Reads one digit of a number that still fits. -/
theorem readPositional_digit {st : Reading} {c : Char} {value : Decimal} (rest : List Char)
    (hc : c.isDigit = true)
    (hvalue : make? false (10 * st.value.mantissa + (c.toNat - '0'.toNat))
      (if st.point then st.value.scale + 1 else st.value.scale) = some value)
    (hscale : value.scale = 28 → rest = []) :
    ∃ wide, readPositional st (c :: rest) =
      readPositional { st with value := value, digits := true, wide := wide } rest := by
  rw [readPositional, digit?_of_isDigit hc]
  simp only [hvalue]
  by_cases h28 : value.scale = 28
  · -- nothing is left to be rounded by
    refine ⟨st.wide, ?_⟩
    rw [if_pos h28, hscale h28, List.dropWhile_nil, ite_self, readPositional]
    rfl
  · exact ⟨_, if_neg h28⟩

/-- The digits before the point. -/
theorem readPositional_whole {digits : List Char} (hdigits : ∀ c ∈ digits, c.isDigit = true)
    (rest : List Char) :
    ∀ st : Reading, st.point = false → st.value.negative = false → st.value.scale = 0 →
      Nat.ofDigitChars 10 digits st.value.mantissa < 2 ^ (96 : Nat) →
      ∃ st' : Reading, readPositional st (digits ++ rest) = readPositional st' rest ∧
        st'.point = false ∧ st'.value.negative = false ∧ st'.value.scale = 0 ∧
        st'.value.mantissa = Nat.ofDigitChars 10 digits st.value.mantissa ∧
        st'.digits = (st.digits || !digits.isEmpty) := by
  induction digits with
  | nil =>
    intro st hpoint hneg hscale _
    exact ⟨st, rfl, hpoint, hneg, hscale, (Nat.ofDigitChars_nil).symm, (Bool.or_false _).symm⟩
  | cons c digits ih =>
    intro st hpoint hneg hscale hlt
    rw [Nat.ofDigitChars_cons] at hlt
    have hfits := Nat.lt_of_le_of_lt (le_ofDigitChars digits _) hlt
    let value : Decimal :=
      ⟨false, 10 * st.value.mantissa + (c.toNat - '0'.toNat), 0, hfits, by decide⟩
    have hvalue : make? false (10 * st.value.mantissa + (c.toNat - '0'.toNat))
        (if st.point then st.value.scale + 1 else st.value.scale) = some value := by
      rw [hpoint, hscale, make?_eq_some_iff]
      exact ⟨rfl, rfl, rfl⟩
    obtain ⟨wide, hread⟩ := readPositional_digit (digits ++ rest)
      (hdigits c List.mem_cons_self) hvalue fun h => absurd h (by show 0 ≠ 28; decide)
    obtain ⟨st', hrest, hpoint', hneg', hscale', hmantissa', hdigits'⟩ :=
      ih (fun c' hc' => hdigits c' (List.mem_cons_of_mem _ hc'))
        { st with value := value, digits := true, wide := wide } hpoint rfl rfl hlt
    refine ⟨st', hread.trans hrest, hpoint', hneg', hscale', ?_, ?_⟩
    · rw [hmantissa', Nat.ofDigitChars_cons]
    · rw [hdigits', List.isEmpty_cons, Bool.true_or, Bool.not_false, Bool.or_true]

/-- The digits after the point. -/
theorem readPositional_fraction {digits : List Char} (hdigits : ∀ c ∈ digits, c.isDigit = true) :
    ∀ {st : Reading} {d : Decimal}, st.point = true → st.digits = true →
      st.value.negative = false → d.negative = false →
      d.mantissa = Nat.ofDigitChars 10 digits st.value.mantissa →
      d.scale = st.value.scale + digits.length → readPositional st digits = .ok d := by
  induction digits with
  | nil =>
    intro st d _ hread hneg hneg' hmantissa hscale
    rw [readPositional_nil hread]
    rw [Nat.ofDigitChars_nil] at hmantissa
    rw [eq_of_parts (hneg.trans hneg'.symm) hmantissa.symm hscale.symm]
  | cons c digits ih =>
    intro st d hpoint hread hneg hneg' hmantissa hscale
    rw [Nat.ofDigitChars_cons] at hmantissa
    rw [List.length_cons] at hscale
    have hfits : 10 * st.value.mantissa + (c.toNat - '0'.toNat) < 2 ^ (96 : Nat) := by
      have hle := le_ofDigitChars digits (10 * st.value.mantissa + (c.toNat - '0'.toNat))
      have hlt := d.mantissa_lt
      omega
    have hle : st.value.scale + 1 ≤ 28 := by
      have := d.scale_le
      omega
    let value : Decimal :=
      ⟨false, 10 * st.value.mantissa + (c.toNat - '0'.toNat), st.value.scale + 1, hfits, hle⟩
    have hvalue : make? false (10 * st.value.mantissa + (c.toNat - '0'.toNat))
        (if st.point then st.value.scale + 1 else st.value.scale) = some value := by
      rw [if_pos hpoint, make?_eq_some_iff]
      exact ⟨rfl, rfl, rfl⟩
    have hlast : value.scale = 28 → digits = [] := by
      intro h
      have hs : st.value.scale + 1 = 28 := h
      have hd := d.scale_le
      rw [← List.length_eq_zero_iff]
      omega
    obtain ⟨wide, hstep⟩ :=
      readPositional_digit digits (hdigits c List.mem_cons_self) hvalue hlast
    rw [hstep]
    refine ih (fun c' hc' => hdigits c' (List.mem_cons_of_mem _ hc')) hpoint rfl rfl hneg' ?_ ?_
    · exact hmantissa
    · show d.scale = st.value.scale + 1 + digits.length
      omega

/-! ## The whole text -/

/-- The written form without its sign. -/
def magnitudeChars (d : Decimal) : List Char :=
  let digits := paddedDigits d.mantissa (d.scale + 1)
  let whole := digits.length - d.scale
  if d.scale = 0 then digits else digits.take whole ++ '.' :: digits.drop whole

theorem chars_eq (d : Decimal) :
    d.chars = (if d.negative then ['-'] else []) ++ d.magnitudeChars := rfl

/-- The written form without its sign is digits, and behind a point as many more as the scale
says. -/
theorem magnitudeChars_eq (d : Decimal) :
    ∃ c whole fraction, d.magnitudeChars =
        c :: whole ++ (if d.scale = 0 then [] else '.' :: fraction) ∧
      (∀ c' ∈ c :: whole, c'.isDigit = true) ∧ (∀ c' ∈ fraction, c'.isDigit = true) ∧
      fraction.length = d.scale ∧
      Nat.ofDigitChars 10 fraction (Nat.ofDigitChars 10 (c :: whole) 0) = d.mantissa := by
  have hvalue := ofDigitChars_paddedDigits d.mantissa (d.scale + 1)
  have hlength := le_length_paddedDigits d.mantissa (d.scale + 1)
  have hdigit : ∀ c ∈ paddedDigits d.mantissa (d.scale + 1), c.isDigit = true := fun _ hc =>
    isDigit_of_mem_paddedDigits hc
  unfold magnitudeChars
  generalize paddedDigits d.mantissa (d.scale + 1) = digits at hvalue hlength hdigit ⊢
  obtain ⟨k, hk⟩ : ∃ k, digits.length - d.scale = k + 1 :=
    ⟨digits.length - d.scale - 1, by omega⟩
  cases digits with
  | nil =>
    rw [List.length_nil] at hlength
    omega
  | cons c digits =>
    rw [List.length_cons] at hk
    refine ⟨c, digits.take k, digits.drop k, ?_, fun c' hc' => ?_, fun c' hc' => ?_, ?_, ?_⟩
    · by_cases hscale : d.scale = 0
      · have hall : digits.length ≤ k := by omega
        simp only [if_pos hscale]
        rw [List.append_nil, List.take_of_length_le hall]
      · simp only [if_neg hscale]
        rw [List.length_cons, hk, List.take_succ_cons, List.drop_succ_cons]
    · rw [← List.take_succ_cons] at hc'
      exact hdigit c' (List.mem_of_mem_take hc')
    · exact hdigit c' (List.mem_cons_of_mem _ (List.mem_of_mem_drop hc'))
    · rw [List.length_drop]
      omega
    · rw [← Nat.ofDigitChars_append, List.cons_append, List.take_append_drop, hvalue]

theorem readPositional_magnitudeChars (d : Decimal) :
    readPositional .start d.magnitudeChars = .ok { d with negative := false } := by
  obtain ⟨c, whole, fraction, heq, hwhole, hfraction, hlength, hvalue⟩ := magnitudeChars_eq d
  have hlt : Nat.ofDigitChars 10 (c :: whole) 0 < 2 ^ (96 : Nat) := by
    have := le_ofDigitChars fraction (Nat.ofDigitChars 10 (c :: whole) 0)
    have := d.mantissa_lt
    omega
  obtain ⟨st, hread, hpoint, hneg, hscale, hmantissa, hdigits⟩ :=
    readPositional_whole hwhole (if d.scale = 0 then [] else '.' :: fraction)
      .start rfl rfl rfl hlt
  rw [heq, hread]
  by_cases hd : d.scale = 0
  · -- no point, and nothing behind it
    rw [hd, List.length_eq_zero_iff] at hlength
    subst hlength
    rw [if_pos hd, readPositional_nil hdigits]
    rw [Nat.ofDigitChars_nil] at hvalue
    rw [eq_of_parts (b := { d with negative := false }) hneg (hmantissa.trans hvalue)
      (hscale.trans hd.symm)]
  · rw [if_neg hd, readPositional, show digit? '.' = none from by decide]
    simp only [hpoint, Bool.false_eq_true, not_false_eq_true, and_self, if_true]
    refine readPositional_fraction hfraction rfl hdigits hneg rfl ?_ ?_
    · show d.mantissa = Nat.ofDigitChars 10 fraction st.value.mantissa
      rw [hmantissa]
      exact hvalue.symm
    · show d.scale = st.value.scale + fraction.length
      rw [hscale, hlength, Nat.zero_add]

theorem ofPositional_chars (d : Decimal) : ofPositional d.chars = .ok d.unsignedZero := by
  have hread := readPositional_magnitudeChars d
  rw [chars_eq]
  obtain ⟨negative, m, s, hm, hs⟩ := d
  cases negative with
  | true =>
    rw [if_pos rfl, List.singleton_append, ofPositional, hread]
    rfl
  | false =>
    obtain ⟨c, whole, _, hcons, hdigits, _⟩ := magnitudeChars_eq ⟨false, m, s, hm, hs⟩
    have hc : c.isDigit = true := hdigits c List.mem_cons_self
    rw [if_neg Bool.false_ne_true, List.nil_append]
    rw [hcons] at hread ⊢
    unfold ofPositional
    split
    · rename_i h
      cases h
    · rename_i h
      cases h
      cases hc
    · rename_i h
      cases h
      cases hc
    · rw [hread, unsignedZero]
      split
      · rfl
      · rfl

end Custodian.Decimal

namespace Custodian

/-- A written decimal is read back with its scale; a zero loses its sign. -/
theorem readDecimal_toText (d : Decimal) : readDecimal d.toText = .ok d.unsignedZero := by
  unfold readDecimal Decimal.ofText Decimal.ofChars Decimal.toText
  rw [String.toList_ofList, Decimal.ofPositional_chars]
  rfl

end Custodian
