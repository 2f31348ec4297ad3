import Custodian.Time.Calendar
import Mathlib.Algebra.GroupWithZero.Nat

/-!
# The calendar and the instants

Times of the calendar are ordered by their fields, the longest span first (`Civil.before`). The time
of an instant exists and stands for this very instant (`Civil.millis_ofMillis`), and a later time
stands for no earlier instant (`Civil.millis_le_of_lt`). So times of instants are in the order of
the instants (`Civil.ofMillis_lt_iff`).
-/

namespace Custodian.Time

/-! ## Years -/

/-- The days of a year. -/
def yearLength (year : Int) : Nat := (monthLengths year).sum

theorem yearLength_eq (year : Int) :
    yearLength year = if isLeapYear year = true then 366 else 365 := by
  unfold yearLength monthLengths
  split <;> rfl

theorem isLeapYear_iff (year : Int) :
    isLeapYear year = true ↔ year % 4 = 0 ∧ (year % 100 ≠ 0 ∨ year % 400 = 0) := by
  simp [isLeapYear]

theorem daysBeforeYear_eq (year : Int) :
    daysBeforeYear year =
      365 * (year - 1) + (year - 1) / 4 - (year - 1) / 100 + (year - 1) / 400 := rfl

theorem daysBeforeYear_succ (year : Int) :
    daysBeforeYear (year + 1) = daysBeforeYear year + yearLength year := by
  rw [yearLength_eq, daysBeforeYear_eq, daysBeforeYear_eq]
  by_cases h : isLeapYear year = true
  · rw [if_pos h]
    have h := (isLeapYear_iff year).mp h
    omega
  · rw [if_neg h]
    rw [isLeapYear_iff] at h
    omega

theorem daysBeforeYear_le {year year' : Int} (h : year ≤ year') :
    daysBeforeYear year ≤ daysBeforeYear year' := by
  rw [daysBeforeYear_eq, daysBeforeYear_eq]
  omega

/-- A day is one of its year. -/
theorem daysBeforeYear_yearOf (day : Int) :
    daysBeforeYear (yearOf day) ≤ day ∧ day < daysBeforeYear (yearOf day + 1) := by
  have hguess : ∀ guess : Int, guess = day * 400 / 146097 + 1 →
      daysBeforeYear (guess - 1) ≤ day ∧ day < daysBeforeYear (guess + 1 + 1) := by
    intro guess hguess
    rw [daysBeforeYear_eq, daysBeforeYear_eq]
    omega
  obtain ⟨hlower, hupper⟩ := hguess _ rfl
  unfold yearOf
  simp only
  split
  · rename_i hbefore
    exact ⟨hlower, by rwa [Int.sub_add_cancel]⟩
  · split
    · rename_i hbehind
      exact ⟨hbehind, hupper⟩
    · omega

/-! ## Months -/

/-- The length of a month, none beyond the last one. -/
def monthLength (year : Int) (month : Nat) : Nat := (monthLengths year)[month - 1]?.getD 0

/-- A month that has days is one of the twelve, and has 31 days at most. -/
theorem le_of_monthLength_pos {year : Int} {month : Nat} (h : 0 < monthLength year month) :
    month ≤ 12 ∧ monthLength year month ≤ 31 := by
  unfold monthLength at h ⊢
  rcases hfound : (monthLengths year)[month - 1]? with _ | length
  · rw [hfound] at h
    exact absurd h (Nat.lt_irrefl 0)
  · obtain ⟨hindex, -⟩ := List.getElem?_eq_some_iff.mp hfound
    have hmem := List.mem_of_getElem? hfound
    have hle : ∀ length ∈ monthLengths year, length ≤ 31 := by
      unfold monthLengths
      cases isLeapYear year <;> decide
    have htwelve : (monthLengths year).length = 12 := rfl
    exact ⟨by omega, hle length hmem⟩

theorem daysBeforeMonth_eq (year : Int) (month : Nat) :
    daysBeforeMonth year month = ((monthLengths year).take (month - 1)).sum :=
  List.sum_eq_foldl_nat.symm

theorem daysBeforeMonth_succ (year : Int) {month : Nat} (h : 1 ≤ month) :
    daysBeforeMonth year (month + 1) = daysBeforeMonth year month + monthLength year month := by
  obtain ⟨k, rfl⟩ := Nat.exists_eq_add_of_le' h
  rw [daysBeforeMonth_eq, daysBeforeMonth_eq, monthLength, Nat.add_sub_cancel, Nat.add_sub_cancel,
    List.take_add_one, List.sum_append_nat]
  cases (monthLengths year)[k]? <;> rfl

theorem sum_take_le (lengths : List Nat) (n : Nat) : (lengths.take n).sum ≤ lengths.sum := by
  have hsum := congrArg List.sum (List.take_append_drop n lengths)
  rw [List.sum_append_nat] at hsum
  omega

theorem daysBeforeMonth_le (year : Int) {month month' : Nat} (h : month ≤ month') :
    daysBeforeMonth year month ≤ daysBeforeMonth year month' := by
  have htake : (monthLengths year).take (month - 1) =
      ((monthLengths year).take (month' - 1)).take (month - 1) := by
    rw [List.take_take, Nat.min_eq_left (Nat.sub_le_sub_right h 1)]
  rw [daysBeforeMonth_eq, daysBeforeMonth_eq, htake]
  exact sum_take_le _ _

theorem daysBeforeMonth_le_yearLength (year : Int) (month : Nat) :
    daysBeforeMonth year month ≤ yearLength year := by
  rw [daysBeforeMonth_eq]
  exact sum_take_le _ _

/-- The day that is found is one of the month that is found, and as many days come before it. -/
theorem monthAndDay_spec {lengths : List Nat} {days : Nat} (h : days < lengths.sum) (month : Nat) :
    ∃ k day length, monthAndDay month days lengths = (month + k, day + 1) ∧
      lengths[k]? = some length ∧ day < length ∧ days = (lengths.take k).sum + day := by
  induction lengths generalizing month days with
  | nil => exact absurd h (Nat.not_lt_zero _)
  | cons first lengths ih =>
    rw [monthAndDay]
    split
    · rename_i hday
      exact ⟨0, days, first, rfl, rfl, hday, (Nat.zero_add _).symm⟩
    · rename_i hday
      rw [List.sum_cons] at h
      have hrest : days - first < lengths.sum := by omega
      obtain ⟨k, day, length, hfound, hlength, hday', hdays⟩ := ih hrest (month + 1)
      refine ⟨k + 1, day, length, ?_, hlength, hday', ?_⟩
      · rw [hfound, Nat.add_right_comm, Nat.add_assoc]
      · rw [List.take_succ_cons, List.sum_cons]
        omega

/-! ## Times -/

namespace Civil

/-- The first field in which two times differ decides, the longest span coming first. -/
def before (c c' : Civil) : Prop :=
  c.year < c'.year ∨ c.year = c'.year ∧
  (c.month < c'.month ∨ c.month = c'.month ∧
  (c.day < c'.day ∨ c.day = c'.day ∧
  (c.hour < c'.hour ∨ c.hour = c'.hour ∧
  (c.minute < c'.minute ∨ c.minute = c'.minute ∧
  (c.second < c'.second ∨ c.second = c'.second ∧ c.nanosecond < c'.nanosecond)))))

instance : LT Civil := ⟨before⟩

instance : LE Civil := ⟨fun c c' => ¬ c' < c⟩

instance : DecidableLT Civil := fun _ _ => inferInstanceAs (Decidable (_ ∨ _))

instance : DecidableLE Civil := fun c c' => inferInstanceAs (Decidable (¬ c' < c))

variable {c c' : Civil}

theorem lt_iff_before : c < c' ↔ c.before c' := Iff.rfl

theorem not_lt : ¬ c < c' ↔ c' ≤ c := Iff.rfl

theorem lt_irrefl (c : Civil) : ¬ c < c := by
  rw [lt_iff_before, before]
  omega

theorem lt_or_eq_of_le (h : c ≤ c') : c < c' ∨ c = c' := by
  obtain ⟨year, month, day, hour, minute, second, nanosecond⟩ := c
  obtain ⟨year', month', day', hour', minute', second', nanosecond'⟩ := c'
  have h := not_lt.mpr h
  simp only [lt_iff_before, before, mk.injEq] at h ⊢
  omega

/-- A date exists if its day is one of its month. -/
theorem isValid_iff : c.isValid = true ↔
    1 ≤ c.month ∧ 1 ≤ c.day ∧ c.day ≤ monthLength c.year c.month ∧
      c.hour < 24 ∧ c.minute < 60 ∧ c.second ≤ 60 ∧ c.nanosecond < 1000000000 := by
  unfold isValid monthLength
  rcases (monthLengths c.year)[c.month - 1]? with _ | length
  · simp
    omega
  · simp [and_assoc]

/-- The days of the year before a day. -/
def dayOfYear (c : Civil) : Nat := daysBeforeMonth c.year c.month + (c.day - 1)

theorem dayNumber_eq (c : Civil) :
    c.dayNumber = daysBeforeYear c.year - daysBeforeYear 1970 + c.dayOfYear := by
  unfold dayNumber dayOfYear
  omega

theorem dayOfYear_lt_of_month_lt (h : c.isValid = true) {month : Nat} (hmonth : c.month < month) :
    c.dayOfYear < daysBeforeMonth c.year month := by
  obtain ⟨hfirst, hday, hlast, -⟩ := isValid_iff.mp h
  have hle := daysBeforeMonth_le c.year (Nat.succ_le_of_lt hmonth)
  rw [Nat.succ_eq_add_one, daysBeforeMonth_succ c.year hfirst] at hle
  unfold dayOfYear
  omega

theorem dayOfYear_lt (h : c.isValid = true) : c.dayOfYear < yearLength c.year :=
  Nat.lt_of_lt_of_le (dayOfYear_lt_of_month_lt h (Nat.lt_succ_self _))
    (daysBeforeMonth_le_yearLength c.year _)

/-- A later time is on a later day, or on the same day at a later time of it. -/
theorem dayNumber_lt_or (h : c.isValid = true) (hlt : c < c') :
    c.dayNumber < c'.dayNumber ∨ c.dayNumber = c'.dayNumber ∧
      (c.hour < c'.hour ∨ c.hour = c'.hour ∧
      (c.minute < c'.minute ∨ c.minute = c'.minute ∧
      (c.second < c'.second ∨ c.second = c'.second ∧ c.nanosecond < c'.nanosecond))) := by
  rw [dayNumber_eq, dayNumber_eq]
  rcases lt_iff_before.mp hlt with hyear | ⟨hyear, hlt⟩
  · have hle := daysBeforeYear_le (Int.add_one_le_of_lt hyear)
    rw [daysBeforeYear_succ] at hle
    have hday := dayOfYear_lt h
    omega
  · rcases hlt with hmonth | ⟨hmonth, hlt⟩
    · have hday := dayOfYear_lt_of_month_lt h hmonth
      have hday' : daysBeforeMonth c.year c'.month ≤ c'.dayOfYear := by
        rw [hyear]
        exact Nat.le_add_right _ _
      rw [hyear]
      omega
    · have hfirst := (isValid_iff.mp h).2.1
      unfold dayOfYear
      rw [hyear, hmonth]
      omega

/-- A later time is not an earlier instant, except that the instants of a leap second come again. -/
theorem millis_le_of_lt (h : c.isValid = true) (hsecond : c.second < 60) (hlt : c < c') :
    c.millis 0 ≤ c'.millis 0 := by
  obtain ⟨-, -, -, hhour, hminute, -, hnano⟩ := isValid_iff.mp h
  have hday := dayNumber_lt_or h hlt
  unfold millis
  omega

/-! ## The time of an instant -/

/-- The fields of the time of an instant. -/
theorem exists_ofMillis (millis : Int) :
    ∃ day month dayOfMonth length, day = millis / 86400000 + daysBeforeYear 1970 ∧
      ofMillis millis = ⟨yearOf day, 1 + month, dayOfMonth + 1,
        (millis % 86400000).toNat / 3600000, (millis % 86400000).toNat / 60000 % 60,
        (millis % 86400000).toNat / 1000 % 60, (millis % 86400000).toNat % 1000 * 1000000⟩ ∧
      (monthLengths (yearOf day))[month]? = some length ∧ dayOfMonth < length ∧
      day = daysBeforeYear (yearOf day) + daysBeforeMonth (yearOf day) (1 + month) +
        dayOfMonth := by
  generalize hday : millis / 86400000 + daysBeforeYear 1970 = day
  obtain ⟨hlower, hupper⟩ := daysBeforeYear_yearOf day
  rw [daysBeforeYear_succ] at hupper
  have hrest : (day - daysBeforeYear (yearOf day)).toNat < (monthLengths (yearOf day)).sum := by
    unfold yearLength at hupper
    omega
  obtain ⟨month, dayOfMonth, length, hfound, hlength, hlt, hdays⟩ := monthAndDay_spec hrest 1
  refine ⟨day, month, dayOfMonth, length, rfl, ?_, hlength, hlt, ?_⟩
  · unfold ofMillis
    simp only [hday, hfound]
  · rw [daysBeforeMonth_eq, Nat.add_sub_cancel_left]
    omega

/-- The time of an instant exists, and stands for the instant. -/
theorem isValid_ofMillis (millis : Int) : (ofMillis millis).isValid = true := by
  obtain ⟨day, month, dayOfMonth, length, -, hfields, hlength, hlt, -⟩ := exists_ofMillis millis
  rw [hfields, isValid_iff]
  simp only [monthLength, Nat.add_sub_cancel_left, hlength, Option.getD_some]
  omega

theorem millis_ofMillis (millis : Int) : (ofMillis millis).millis 0 = millis := by
  obtain ⟨day, month, dayOfMonth, length, hday, hfields, -, -, hdays⟩ := exists_ofMillis millis
  rw [hfields, Civil.millis, dayNumber_eq, dayOfYear]
  simp only
  omega

example : ofMillis 951868799999 = ⟨2000, 2, 29, 23, 59, 59, 999000000⟩ := by decide

theorem second_ofMillis_lt (millis : Int) : (ofMillis millis).second < 60 :=
  Nat.mod_lt _ (by decide)

/-- Times of instants are in the order of the instants. -/
theorem ofMillis_lt_iff {millis millis' : Int} :
    ofMillis millis < ofMillis millis' ↔ millis < millis' := by
  have hle : ∀ m m' : Int, ofMillis m < ofMillis m' → m ≤ m' := by
    intro m m' h
    have hle := millis_le_of_lt (isValid_ofMillis m) (second_ofMillis_lt m) h
    rwa [millis_ofMillis, millis_ofMillis] at hle
  constructor
  · intro h
    refine Int.lt_iff_le_and_ne.mpr ⟨hle _ _ h, fun heq => ?_⟩
    rw [heq] at h
    exact lt_irrefl _ h
  · intro h
    by_cases hlt : ofMillis millis < ofMillis millis'
    · exact hlt
    · rcases lt_or_eq_of_le (not_lt.mp hlt) with hlt | heq
      · exact absurd h (Int.not_lt.mpr (hle _ _ hlt))
      · have heq := congrArg (fun c => Civil.millis c 0) heq
        simp only [millis_ofMillis] at heq
        exact absurd h (Int.not_lt.mpr (Int.le_of_eq heq))

end Civil

end Custodian.Time
