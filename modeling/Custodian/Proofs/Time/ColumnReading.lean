import Custodian.Proofs.Time.ColumnText
import Mathlib.Data.List.Basic
import Mathlib.Data.List.TakeWhile

/-!
# Times in columns are read back

A time that is kept as text in its column is read back as the same time
(`Timestamp.ofColumnText?_columnText`). Each field ends where its width is used up, and a year with
a sign where the mark behind it stands. The fraction of a second, however many groups of digits it
has, is scaled up to nanoseconds again.
-/

namespace Custodian.Time

-- Powers are those of the core library, whatever else is in scope.
attribute [local instance(1100)] instPowNat

open Nat (ofDigitChars)
open Custodian.Decimal (paddedDigits)
open Custodian.Text (digit? isBlank blanks)

variable {digits rest : List Char}

/-! ## Digits -/

theorem isSome_digit? {c : Char} (h : c.isDigit = true) : (digit? c).isSome = true := by
  rw [Decimal.digit?_of_isDigit h]
  rfl

/-- Digits are taken up to the first character that is none. -/
theorem takeWhile_digits (hdigits : ∀ c ∈ digits, c.isDigit = true)
    (hrest : ∀ c ∈ rest.head?, digit? c = none) :
    (digits ++ rest).takeWhile (fun c => (digit? c).isSome) = digits := by
  rw [List.takeWhile_append_of_pos fun c hc => isSome_digit? (hdigits c hc)]
  cases rest with
  | nil => exact List.append_nil digits
  | cons c rest =>
    have hnone : ¬ (digit? c).isSome = true := by
      rw [hrest c rfl]
      exact Bool.false_ne_true
    show digits ++ List.takeWhile (fun c => (digit? c).isSome) (c :: rest) = digits
    rw [List.takeWhile_cons_of_neg (p := fun c => (digit? c).isSome) hnone, List.append_nil]

theorem foldl_digits (hdigits : ∀ c ∈ digits, c.isDigit = true) :
    digits.foldl (fun n c => 10 * n + (digit? c).getD 0) 0 = ofDigitChars 10 digits 0 := by
  refine List.foldl_ext _ _ _ fun n c hc => ?_
  rw [Decimal.digit?_of_isDigit (hdigits c hc)]
  rfl

/-- As many digits as there are, or as may be, are read. -/
theorem readDigits_append {least most : Nat} (hdigits : ∀ c ∈ digits, c.isDigit = true)
    (hleast : least ≤ digits.length) (hmost : digits.length ≤ most)
    (hrest : ∀ c ∈ (rest.take (most - digits.length)).head?, digit? c = none) :
    readDigits least most (digits ++ rest) = some (ofDigitChars 10 digits 0, rest) := by
  have htaken : ((digits ++ rest).take most).takeWhile (fun c => (digit? c).isSome) = digits := by
    rw [List.take_append, List.take_of_length_le hmost]
    exact takeWhile_digits hdigits hrest
  unfold readDigits
  simp only [htaken]
  rw [if_neg (Nat.not_lt.mpr hleast), foldl_digits hdigits, List.drop_left]

/-- No blank is a digit. -/
theorem isBlank_of_isDigit {c : Char} (h : c.isDigit = true) : isBlank c = false := by
  have hnone : ∀ n < 58, 48 ≤ n → blanks.contains n = false := by decide
  obtain ⟨hlower, hupper⟩ := toNat_of_isDigit h
  exact hnone c.toNat (Nat.lt_succ_of_le hupper) hlower

theorem skipBlanks_digits (hdigits : ∀ c ∈ digits, c.isDigit = true) (hsome : 0 < digits.length) :
    skipBlanks (digits ++ rest) = digits ++ rest := by
  obtain ⟨c, tail, rfl⟩ := List.exists_cons_of_length_pos hsome
  have hblank := isBlank_of_isDigit (hdigits c List.mem_cons_self)
  exact List.dropWhile_cons_of_neg (by rw [hblank]; exact Bool.false_ne_true)

/-! ## Fields -/

/-- A field of two digits, whatever comes behind it. -/
theorem readDigits_padded {n : Nat} (hn : n < 100) (rest : List Char) :
    readDigits 1 2 (skipBlanks (paddedDigits n 2 ++ rest)) = some (n, rest) := by
  have hdigits : ∀ c ∈ paddedDigits n 2, c.isDigit = true :=
    fun _ => Decimal.isDigit_of_mem_paddedDigits
  have hlength : (paddedDigits n 2).length = 2 := length_paddedDigits (by decide) hn
  rw [skipBlanks_digits hdigits (by omega), readDigits_append hdigits (by omega) (by omega),
    Decimal.ofDigitChars_paddedDigits]
  rw [hlength]
  exact fun _ h => nomatch h

theorem readColumnField_padded {n : Nat} (hn : n < 100) (mark : Char) (rest : List Char) :
    readColumnField mark (mark :: (paddedDigits n 2 ++ rest)) = some (n, rest) := by
  have hmark : readMark [mark] (mark :: (paddedDigits n 2 ++ rest)) =
      some (paddedDigits n 2 ++ rest) :=
    if_pos (List.contains_iff_mem.mpr List.mem_cons_self)
  unfold readColumnField
  rw [hmark]
  exact readDigits_padded hn rest

/-- Behind a sign all digits up to the mark belong to the year. -/
theorem readDigits_signed (n : Nat) (rest : List Char) :
    readDigits 1 (paddedDigits n 4 ++ '-' :: rest).length (paddedDigits n 4 ++ '-' :: rest) =
      some (n, '-' :: rest) := by
  have hlength := Decimal.le_length_paddedDigits n 4
  have hmost : (paddedDigits n 4).length ≤ (paddedDigits n 4 ++ '-' :: rest).length := by
    rw [List.length_append]
    omega
  rw [readDigits_append (fun _ => Decimal.isDigit_of_mem_paddedDigits) (by omega) hmost,
    Decimal.ofDigitChars_paddedDigits]
  intro c hc
  rw [List.head?_take] at hc
  split at hc
  · cases hc
  · cases hc
    decide

/-- Without a sign a year is read as its digits. -/
theorem readYear_digits (hdigits : ∀ c ∈ digits, c.isDigit = true) (hsome : 0 < digits.length) :
    readYear (digits ++ rest) =
      (readDigits 1 4 (digits ++ rest)).map fun (n, rest) => (Int.ofNat n, rest) := by
  have hskip : skipBlanks (digits ++ rest) = digits ++ rest := skipBlanks_digits hdigits hsome
  obtain ⟨c, tail, rfl⟩ := List.exists_cons_of_length_pos hsome
  have hc := hdigits c List.mem_cons_self
  unfold readYear
  rw [hskip]
  split
  · rename_i hsign
    cases hsign
    exact absurd hc (by decide)
  · rename_i hsign
    cases hsign
    exact absurd hc (by decide)
  · rfl

/-- A year is read up to the mark behind it. -/
theorem readYear_yearText (year : Int) (rest : List Char) :
    readYear ((yearText year).toList ++ '-' :: rest) = some (year, '-' :: rest) := by
  by_cases hfour : 0 ≤ year ∧ year ≤ 9999
  · have hdigits : ∀ c ∈ paddedDigits year.toNat 4, c.isDigit = true :=
      fun _ => Decimal.isDigit_of_mem_paddedDigits
    have hlength : (paddedDigits year.toNat 4).length = 4 :=
      length_paddedDigits (by decide) (by show _ < 10000; omega)
    rw [toList_yearText hfour, readYear_digits hdigits (by omega),
      readDigits_append hdigits (by omega) (by omega), Decimal.ofDigitChars_paddedDigits]
    · show some (Int.ofNat year.toNat, '-' :: rest) = _
      rw [Int.ofNat_eq_natCast, Int.toNat_of_nonneg hfour.1]
    · rw [hlength]
      exact fun _ h => nomatch h
  · rw [yearText, if_neg hfour, String.toList_append, toList_padded]
    split
    · refine (congrArg (Option.map fun (n, rest) => (-(n : Int), rest))
        (readDigits_signed year.natAbs rest)).trans ?_
      show some (-(year.natAbs : Int), '-' :: rest) = _
      rw [show -(year.natAbs : Int) = year by omega]
    · refine (congrArg (Option.map fun (n, rest) => (Int.ofNat n, rest))
        (readDigits_signed year.natAbs rest)).trans ?_
      show some ((year.natAbs : Int), '-' :: rest) = _
      rw [show (year.natAbs : Int) = year by omega]

/-- The digits of a fraction are scaled up to nanoseconds. -/
theorem readFraction_fractionText {nanosecond : Nat} (hlt : nanosecond < 1000000000) :
    readFraction (fractionText nanosecond).toList = some (nanosecond, []) := by
  by_cases hzero : nanosecond = 0
  · rw [hzero]
    rfl
  obtain ⟨digits, htext, hdigits, hsome, hnine, hvalue⟩ := exists_fractionText hzero hlt
  have hread : readDigits 1 9 digits = some (ofDigitChars 10 digits 0, []) := by
    rw [← List.append_nil digits, readDigits_append hdigits hsome hnine, List.append_nil]
    rw [List.take_nil]
    exact fun _ h => nomatch h
  have htaken : digits.takeWhile (fun c => (digit? c).isSome) = digits :=
    List.takeWhile_eq_self_iff.mpr fun c hc => isSome_digit? (hdigits c hc)
  have hscaled : ofDigitChars 10 digits 0 * 10 ^ (9 - digits.length) = nanosecond := by
    refine Nat.eq_of_mul_eq_mul_right (Nat.pow_pos (n := digits.length) (show 0 < 10 by decide)) ?_
    rw [Nat.mul_assoc, ← Nat.pow_add, Nat.sub_add_cancel hnine]
    exact hvalue
  rw [htext]
  unfold readFraction
  simp only [hread, htaken]
  rw [Nat.min_eq_right hnine, hscaled, List.drop_length]

/-! ## Times -/

/-- A time is read back from its column. -/
theorem Timestamp.ofColumnText?_columnText (t : Timestamp) :
    ofColumnText? t.columnText = some t := by
  obtain ⟨c, hvalid⟩ := t
  obtain ⟨hmonth, hday, hhour, hminute, hsecond, hnano⟩ := Civil.bounds_of_isValid hvalid
  have hblank : ∀ text, skipBlanks (" ".toList ++ text) = skipBlanks text := fun _ => rfl
  unfold ofColumnText? columnText
  rw [Civil.toList_textWith, readYear_yearText]
  simp only [Option.bind_eq_bind, Option.bind_some, readColumnField_padded hmonth,
    readColumnField_padded hday, hblank, readDigits_padded hhour, readColumnField_padded hminute,
    readColumnField_padded hsecond, readFraction_fractionText hnano]
  exact dif_pos ⟨hvalid, rfl⟩

/-- The time of an instant. -/
def Timestamp.ofMillis (millis : Int) : Timestamp := ⟨.ofMillis millis, Civil.isValid_ofMillis millis⟩

example : Timestamp.ofColumnText? "-0044-03-15 12:00:00.5" =
    some ⟨⟨-44, 3, 15, 12, 0, 0, 500000000⟩, by decide⟩ := by decide

end Custodian.Time
