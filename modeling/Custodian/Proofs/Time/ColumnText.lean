import Custodian.Proofs.Decimal.Text
import Custodian.Proofs.Time.Calendar
import Custodian.Time.Stamp

/-!
# Times in columns are ordered by their texts

A time is kept as text in its column, and times are compared as these texts. Fields come from the
longest span to the shortest, each padded to a width of its own, so the texts of years from 0 to
9999 are in the order of the times (`Civil.textWith_lt`). A year with a sign comes before all of
these, whether it is before 0 or after 9999 (`Civil.signed_lt`).
-/

namespace Custodian.Time

-- Powers are those of the core library, whatever else is in scope; for that a numeral as an
-- exponent has its type.
attribute [local instance(1100)] instPowNat

open Nat (ofDigitChars)
open Custodian.Decimal (paddedDigits)

/-! ## Order of digits -/

theorem ofDigitChars_cons_eq (c : Char) (digits : List Char) :
    ofDigitChars 10 (c :: digits) 0 =
      (c.toNat - '0'.toNat) * 10 ^ digits.length + ofDigitChars 10 digits 0 := by
  rw [Nat.ofDigitChars_cons, Nat.ofDigitChars_eq_ofDigitChars_zero, Nat.mul_zero, Nat.zero_add,
    Nat.mul_comm]

theorem toNat_of_isDigit {c : Char} (h : c.isDigit = true) : 48 ≤ c.toNat ∧ c.toNat ≤ 57 := by
  rw [Char.isDigit, Bool.and_eq_true, decide_eq_true_eq, decide_eq_true_eq] at h
  exact h

theorem ofDigitChars_lt {digits : List Char} (h : ∀ c ∈ digits, c.isDigit = true) :
    ofDigitChars 10 digits 0 < 10 ^ digits.length := by
  induction digits with
  | nil => exact Nat.one_pos
  | cons c digits ih =>
    have hc := toNat_of_isDigit (h c List.mem_cons_self)
    have hrest := ih fun c hc => h c (List.mem_cons_of_mem _ hc)
    have hdigit : (c.toNat - '0'.toNat) * 10 ^ digits.length ≤ 9 * 10 ^ digits.length :=
      Nat.mul_le_mul_right _ (by show c.toNat - 48 ≤ 9; omega)
    rw [ofDigitChars_cons_eq, List.length_cons, Nat.pow_succ]
    omega

/-- Digits behind a point are in the order of the fractions that they stand for, however many they
are. -/
theorem lt_of_ofDigitChars_lt {digits digits' : List Char} (h : ∀ c ∈ digits, c.isDigit = true)
    (h' : ∀ c ∈ digits', c.isDigit = true)
    (hlt : ofDigitChars 10 digits 0 * 10 ^ digits'.length <
      ofDigitChars 10 digits' 0 * 10 ^ digits.length) : digits < digits' := by
  induction digits generalizing digits' with
  | nil =>
    cases digits' with
    | nil => exact absurd hlt (Nat.lt_irrefl _)
    | cons c' digits' => exact List.nil_lt_cons c' digits'
  | cons c digits ih =>
    cases digits' with
    | nil =>
      rw [Nat.ofDigitChars_nil, Nat.zero_mul] at hlt
      exact absurd hlt (Nat.not_lt_zero _)
    | cons c' digits' =>
      have hc := toNat_of_isDigit (h c List.mem_cons_self)
      have hc' := toNat_of_isDigit (h' c' List.mem_cons_self)
      have hrest := fun c hc => h c (List.mem_cons_of_mem _ hc)
      have hrest' := fun c hc => h' c (List.mem_cons_of_mem _ hc)
      have hbound := ofDigitChars_lt hrest'
      rw [ofDigitChars_cons_eq, ofDigitChars_cons_eq, List.length_cons, List.length_cons] at hlt
      rw [List.cons_lt_cons_iff]
      generalize hd : c.toNat - '0'.toNat = d at hlt
      generalize hd' : c'.toNat - '0'.toNat = d' at hlt
      have hscale : ∀ k : Nat, k * 10 ^ digits.length * 10 ^ (digits'.length + 1) =
          k * 10 ^ digits'.length * 10 ^ (digits.length + 1) := by
        intro k
        rw [Nat.mul_assoc, Nat.mul_assoc, ← Nat.pow_add, ← Nat.pow_add]
        congr 2
        omega
      rcases Nat.lt_trichotomy c.toNat c'.toNat with hcc | hcc | hcc
      · exact Or.inl hcc
      · -- the first digits weigh the same, so the rest decides
        have hsame : d = d' := by rw [← hd, ← hd', hcc]
        refine Or.inr ⟨Char.toNat_inj.mp hcc, ih hrest hrest' ?_⟩
        rw [Nat.add_mul, Nat.add_mul, hsame, hscale] at hlt
        have hlt := Nat.lt_of_add_lt_add_left hlt
        rw [Nat.pow_succ, Nat.pow_succ, ← Nat.mul_assoc, ← Nat.mul_assoc] at hlt
        exact Nat.lt_of_mul_lt_mul_right hlt
      · -- a greater first digit weighs more than all that comes after the other one
        have hgreater : d' + 1 ≤ d := by
          have hzero : '0'.toNat = 48 := rfl
          omega
        refine absurd hlt (Nat.not_lt.mpr ?_)
        calc (d' * 10 ^ digits'.length + ofDigitChars 10 digits' 0) * 10 ^ (digits.length + 1)
            ≤ ((d' + 1) * 10 ^ digits'.length) * 10 ^ (digits.length + 1) := by
              refine Nat.mul_le_mul_right _ ?_
              rw [Nat.add_mul, Nat.one_mul]
              omega
          _ = ((d' + 1) * 10 ^ digits.length) * 10 ^ (digits'.length + 1) := (hscale _).symm
          _ ≤ (d * 10 ^ digits.length + ofDigitChars 10 digits 0) * 10 ^ (digits'.length + 1) := by
              refine Nat.mul_le_mul_right _ ?_
              exact Nat.le_trans (Nat.mul_le_mul_right _ hgreater) (Nat.le_add_right _ _)

/-! ## Order of fields -/

/-- Of two texts that are equally long what follows them only counts if they are the same. -/
theorem append_lt_append {text text' rest rest' : List Char} (hlen : text.length = text'.length)
    (h : text < text' ∨ text = text' ∧ rest < rest') : text ++ rest < text' ++ rest' := by
  rcases h with h | ⟨rfl, h⟩
  · induction text generalizing text' with
    | nil =>
      rw [List.length_nil] at hlen
      rw [List.eq_nil_of_length_eq_zero hlen.symm] at h
      exact absurd h (List.not_lt_nil _)
    | cons c text ih =>
      cases text' with
      | nil => exact absurd h (List.not_lt_nil _)
      | cons c' text' =>
        rw [List.cons_lt_cons_iff] at h
        rw [List.cons_append, List.cons_append, List.cons_lt_cons_iff]
        exact h.imp_right fun ⟨hc, h⟩ => ⟨hc, ih (Nat.succ.inj hlen) h⟩
  · exact List.append_left_lt h

theorem toList_padded (width n : Nat) : (padded width n).toList = paddedDigits n width :=
  String.toList_ofList

theorem length_paddedDigits {n width : Nat} (hwidth : 0 < width) (h : n < 10 ^ width) :
    (paddedDigits n width).length = width := by
  have hle := (Nat.length_toDigits_le_iff (by decide) hwidth).mpr h
  unfold paddedDigits
  rw [List.length_append, List.length_replicate]
  omega

theorem paddedDigits_lt {n n' width : Nat} (hwidth : 0 < width) (hn' : n' < 10 ^ width)
    (h : n < n') : paddedDigits n width < paddedDigits n' width := by
  refine lt_of_ofDigitChars_lt (fun _ => Decimal.isDigit_of_mem_paddedDigits)
    (fun _ => Decimal.isDigit_of_mem_paddedDigits) ?_
  rw [Decimal.ofDigitChars_paddedDigits, Decimal.ofDigitChars_paddedDigits,
    length_paddedDigits hwidth hn', length_paddedDigits hwidth (Nat.lt_trans h hn')]
  exact Nat.mul_lt_mul_of_pos_right h (Nat.pow_pos (by decide))

/-- A field decides where it differs, and otherwise what follows it. -/
theorem paddedDigits_append_lt {n n' width : Nat} {rest rest' : List Char} (hwidth : 0 < width)
    (hn : n < 10 ^ width) (hn' : n' < 10 ^ width) (h : n < n' ∨ n = n' ∧ rest < rest') :
    paddedDigits n width ++ rest < paddedDigits n' width ++ rest' := by
  refine append_lt_append ?_ ?_
  · rw [length_paddedDigits hwidth hn, length_paddedDigits hwidth hn']
  · exact h.imp (paddedDigits_lt hwidth hn') fun ⟨hsame, h⟩ => ⟨by rw [hsame], h⟩

/-! ## The fraction of a second -/

/-- The digits of a fraction, three, six or nine of them, stand for the nanoseconds. -/
theorem exists_fractionText {nanosecond : Nat} (hpos : nanosecond ≠ 0)
    (hlt : nanosecond < 1000000000) :
    ∃ digits, (fractionText nanosecond).toList = '.' :: digits ∧ (∀ c ∈ digits, c.isDigit = true) ∧
      0 < digits.length ∧ digits.length ≤ 9 ∧
      ofDigitChars 10 digits 0 * 1000000000 = nanosecond * 10 ^ digits.length := by
  have hgroups : ∀ n width : Nat, 0 < width → width ≤ 9 → n < 10 ^ width →
      n * 1000000000 = nanosecond * 10 ^ width →
      ∃ digits, ("." ++ padded width n).toList = '.' :: digits ∧
        (∀ c ∈ digits, c.isDigit = true) ∧ 0 < digits.length ∧ digits.length ≤ 9 ∧
        ofDigitChars 10 digits 0 * 1000000000 = nanosecond * 10 ^ digits.length := by
    intro n width hwidth hnine hn hvalue
    have hlength := length_paddedDigits hwidth hn
    refine ⟨paddedDigits n width, ?_, fun _ => Decimal.isDigit_of_mem_paddedDigits, by omega,
      by omega, ?_⟩
    · rw [String.toList_append, toList_padded]
      rfl
    · rw [Decimal.ofDigitChars_paddedDigits, hlength, hvalue]
  unfold fractionText
  rw [if_neg hpos]
  split
  · exact hgroups _ 3 (by decide) (by decide) (by show _ < 1000; omega)
      (by show _ = _ * 1000; omega)
  · split
    · exact hgroups _ 6 (by decide) (by decide) (by show _ < 1000000; omega)
        (by show _ = _ * 1000000; omega)
    · exact hgroups _ 9 (by decide) (by decide) hlt rfl

theorem fractionText_lt {nanosecond nanosecond' : Nat} (hlt : nanosecond' < 1000000000)
    (h : nanosecond < nanosecond') :
    (fractionText nanosecond).toList < (fractionText nanosecond').toList := by
  obtain ⟨digits', htext', hdigits', -, -, hvalue'⟩ :=
    exists_fractionText (Nat.ne_zero_of_lt h) hlt
  by_cases hzero : nanosecond = 0
  · rw [hzero, htext']
    exact List.nil_lt_cons _ _
  · obtain ⟨digits, htext, hdigits, -, -, hvalue⟩ :=
      exists_fractionText hzero (Nat.lt_trans h hlt)
    rw [htext, htext']
    refine List.cons_lt_cons_iff.mpr (Or.inr ⟨rfl, lt_of_ofDigitChars_lt hdigits hdigits' ?_⟩)
    refine Nat.lt_of_mul_lt_mul_right (a := 1000000000) ?_
    calc ofDigitChars 10 digits 0 * 10 ^ digits'.length * 1000000000
        = nanosecond * 10 ^ digits.length * 10 ^ digits'.length := by
          rw [Nat.mul_right_comm, hvalue]
      _ < nanosecond' * 10 ^ digits.length * 10 ^ digits'.length := by
          have hpos : ∀ n : Nat, 0 < 10 ^ n := fun n => Nat.pow_pos (by decide)
          exact Nat.mul_lt_mul_of_pos_right (Nat.mul_lt_mul_of_pos_right h (hpos _)) (hpos _)
      _ = ofDigitChars 10 digits' 0 * 10 ^ digits.length * 1000000000 := by
          rw [Nat.mul_right_comm nanosecond', ← hvalue', Nat.mul_right_comm]

/-! ## Times -/

theorem toList_yearText {year : Int} (h : 0 ≤ year ∧ year ≤ 9999) :
    (yearText year).toList = paddedDigits year.toNat 4 := by
  rw [yearText, if_pos h, toList_padded]

/-- Any other year begins with its sign, which comes before all digits. -/
theorem exists_sign {year : Int} (h : ¬(0 ≤ year ∧ year ≤ 9999)) :
    ∃ sign rest, (yearText year).toList = sign :: rest ∧ sign.toNat < 48 := by
  rw [yearText, if_neg h, String.toList_append]
  split
  · exact ⟨'-', _, rfl, by decide⟩
  · exact ⟨'+', _, rfl, by decide⟩

namespace Civil

/-- Whether four digits are enough for the year, so that it has no sign. -/
def FourDigits (c : Civil) : Prop := 0 ≤ c.year ∧ c.year ≤ 9999

instance (c : Civil) : Decidable c.FourDigits := inferInstanceAs (Decidable (_ ∧ _))

variable {c c' : Civil}

theorem toList_textWith (c : Civil) (mark : String) :
    (c.textWith mark).toList = (yearText c.year).toList ++ ('-' :: (paddedDigits c.month 2 ++
      ('-' :: (paddedDigits c.day 2 ++ (mark.toList ++ (paddedDigits c.hour 2 ++
      (':' :: (paddedDigits c.minute 2 ++ (':' :: (paddedDigits c.second 2 ++
      (fractionText c.nanosecond).toList)))))))))) := by
  simp [textWith, toList_padded, List.append_assoc]

/-- The fields of a date that exists fit into their widths. -/
theorem bounds_of_isValid (h : c.isValid = true) :
    c.month < 100 ∧ c.day < 100 ∧ c.hour < 100 ∧ c.minute < 100 ∧ c.second < 100 ∧
      c.nanosecond < 1000000000 := by
  obtain ⟨hmonth, hday, hlast, hhour, hminute, hsecond, hnano⟩ := isValid_iff.mp h
  have hle := le_of_monthLength_pos (Nat.lt_of_lt_of_le hday hlast)
  omega

/-- Texts of years of four digits are in the order of the times. -/
theorem textWith_lt (h : c.isValid = true) (h' : c'.isValid = true) (hyear : c.FourDigits)
    (hyear' : c'.FourDigits) (hlt : c < c') (mark : String) :
    c.textWith mark < c'.textWith mark := by
  obtain ⟨hmonth, hday, hhour, hminute, hsecond, -⟩ := bounds_of_isValid h
  obtain ⟨hmonth', hday', hhour', hminute', hsecond', hnano'⟩ := bounds_of_isValid h'
  show (c.textWith mark).toList < (c'.textWith mark).toList
  rw [toList_textWith, toList_textWith, toList_yearText hyear, toList_yearText hyear']
  have hfour : ∀ c : Civil, c.FourDigits → c.year.toNat < 10 ^ (4 : Nat) := by
    intro c hc
    have := hc.2
    show _ < 10000
    omega
  -- each field decides unless it is the same, and the mark behind it is the same then
  have hmark : ∀ (m : Char) {rest rest' : List Char}, rest < rest' → m :: rest < m :: rest' :=
    fun _ _ _ h => List.cons_lt_cons_iff.mpr (Or.inr ⟨rfl, h⟩)
  refine paddedDigits_append_lt (by decide) (hfour c hyear) (hfour c' hyear') ?_
  refine (lt_iff_before.mp hlt).imp (fun h => ?_) fun ⟨hsame, hlt⟩ => ⟨by rw [hsame], hmark _ ?_⟩
  · have := hyear.1
    omega
  refine paddedDigits_append_lt (by decide) hmonth hmonth' ?_
  refine hlt.imp_right fun ⟨hsame, hlt⟩ => ⟨hsame, hmark _ ?_⟩
  refine paddedDigits_append_lt (by decide) hday hday' ?_
  refine hlt.imp_right fun ⟨hsame, hlt⟩ => ⟨hsame, List.append_left_lt ?_⟩
  refine paddedDigits_append_lt (by decide) hhour hhour' ?_
  refine hlt.imp_right fun ⟨hsame, hlt⟩ => ⟨hsame, hmark _ ?_⟩
  refine paddedDigits_append_lt (by decide) hminute hminute' ?_
  refine hlt.imp_right fun ⟨hsame, hlt⟩ => ⟨hsame, hmark _ ?_⟩
  refine paddedDigits_append_lt (by decide) hsecond hsecond' ?_
  exact hlt.imp_right fun ⟨hsame, hlt⟩ => ⟨hsame, fractionText_lt hnano' hlt⟩

/-- A year with a sign comes before all years of four digits. -/
theorem signed_lt (hsigned : ¬ c.FourDigits) (hyear' : c'.FourDigits) (mark : String) :
    c.textWith mark < c'.textWith mark := by
  show (c.textWith mark).toList < (c'.textWith mark).toList
  rw [toList_textWith, toList_textWith, toList_yearText hyear']
  obtain ⟨sign, rest, htext, hsign⟩ := exists_sign hsigned
  have hlength := Decimal.le_length_paddedDigits c'.year.toNat 4
  obtain ⟨digit, digits, hdigits⟩ :=
    List.exists_cons_of_length_pos (Nat.lt_of_lt_of_le (by decide) hlength)
  have hmem : digit ∈ paddedDigits c'.year.toNat 4 := by
    rw [hdigits]
    exact List.mem_cons_self
  have hdigit := Decimal.isDigit_of_mem_paddedDigits hmem
  rw [htext, hdigits, List.cons_append, List.cons_append, List.cons_lt_cons_iff]
  exact Or.inl (Nat.lt_of_lt_of_le hsign (toNat_of_isDigit hdigit).1)

example : columnText 253402300799999 = "9999-12-31 23:59:59.999" ∧
    columnText 253402300800000 = "+10000-01-01 00:00:00" := by decide

end Civil

end Custodian.Time
