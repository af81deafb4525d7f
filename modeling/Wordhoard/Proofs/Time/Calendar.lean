import Wordhoard.Time.Calendar

/-! Days and dates are two names of one thing. Main statement: the date of a day is a date of the
calendar, and its day number is the day. -/
namespace Wordhoard.Time

def yearLength (year : Int) : Nat := if isLeapYear year then 366 else 365

theorem isLeapYear_iff {year : Int} :
    isLeapYear year = true ↔ year % 4 = 0 ∧ (year % 100 ≠ 0 ∨ year % 400 = 0) := by
  simp only [isLeapYear, Bool.and_eq_true, Bool.or_eq_true, beq_iff_eq, bne_iff_ne, ne_eq]

theorem yearStart_succ (year : Int) : yearStart (year + 1) = yearStart year + yearLength year := by
  rw [yearLength]
  split
  · rename_i leap
    rw [isLeapYear_iff] at leap
    simp only [yearStart]
    omega
  · rename_i common
    rw [isLeapYear_iff] at common
    simp only [yearStart]
    omega

theorem yearStart_near_mean (year : Int) :
    146097 * (year - 1) - 699 ≤ 400 * (yearStart year + 719162) ∧
      400 * (yearStart year + 719162) ≤ 146097 * (year - 1) + 396 := by
  simp only [yearStart]
  omega

theorem daysBeforeMonth_succ (year : Int) {month : Nat} (h : 1 ≤ month) :
    daysBeforeMonth year (month + 1) = daysBeforeMonth year month + daysInMonth year month := by
  have further (days : Nat) (months : List Nat) :
      months.foldr (fun m days => daysInMonth year m + days) days =
        months.foldr (fun m days => daysInMonth year m + days) 0 + days := by
    induction months with
    | nil => simp
    | cons m months ih => rw [List.foldr_cons, List.foldr_cons, ih, Nat.add_assoc]
  have months : (List.range (month + 1)).drop 1 = (List.range month).drop 1 ++ [month] := by
    rw [List.range_succ, List.drop_append_of_le_length (by simpa using h)]
  rw [daysBeforeMonth, months, List.foldr_append, further]
  simp [daysBeforeMonth]

theorem daysBeforeMonth_end (year : Int) : daysBeforeMonth year 13 = yearLength year := by
  simp only [daysBeforeMonth, yearLength, daysInMonth]
  cases isLeapYear year <;> decide

theorem yearOf_bounds (n : Int) :
    yearStart (Date.yearOf n) ≤ n ∧ n < yearStart (Date.yearOf n + 1) := by
  simp only [Date.yearOf]
  generalize hg : (n + 719162) * 400 / 146097 + 1 = guess
  have guess_bounds : 146097 * (guess - 1) ≤ 400 * (n + 719162) ∧
      400 * (n + 719162) < 146097 * guess := by omega
  split
  · rename_i early
    have := yearStart_near_mean (guess - 1)
    rw [Int.sub_add_cancel]
    omega
  split
  · rename_i late early
    exact ⟨by omega, early⟩
  · rename_i late
    have := yearStart_near_mean (guess + 1 + 1)
    omega

namespace Date

theorem inYear_spec (year : Int) (month left rest : Nat) (first : 1 ≤ month)
    (months : month + left = 13)
    (inside : daysBeforeMonth year month + rest < yearLength year) :
    ∃ m day, inYear year (List.range' month left) rest = ⟨year, m, day⟩ ∧ 1 ≤ m ∧ m ≤ 12 ∧
      1 ≤ day ∧ day ≤ daysInMonth year m ∧
      daysBeforeMonth year m + day = daysBeforeMonth year month + rest + 1 := by
  induction left generalizing month rest with
  | zero =>
    obtain rfl : month = 13 := months
    rw [daysBeforeMonth_end] at inside
    omega
  | succ left ih =>
    rw [List.range'_succ, inYear]
    split
    · rename_i here
      exact ⟨month, rest + 1, rfl, first, by omega, by omega, here, by omega⟩
    · rename_i beyond
      have next := daysBeforeMonth_succ year first
      obtain ⟨m, day, found, low, high, one, most, same⟩ :=
        ih (month + 1) (rest - daysInMonth year month) (by omega) (by omega) (by omega)
      exact ⟨m, day, found, low, high, one, most, by omega⟩

theorem ofDayNumber_spec (n : Int) : (ofDayNumber n).dayNumber = n ∧ (ofDayNumber n).isValid := by
  obtain ⟨low, high⟩ := yearOf_bounds n
  rw [yearStart_succ] at high
  have january : daysBeforeMonth (yearOf n) 1 = 0 := rfl
  obtain ⟨m, day, found, first, last, one, most, same⟩ :=
    inYear_spec (yearOf n) 1 12 (n - yearStart (yearOf n)).toNat (Nat.le_refl 1) rfl (by omega)
  have date : ofDayNumber n = ⟨yearOf n, m, day⟩ := found
  rw [date]
  constructor
  · simp only [dayNumber]
    omega
  · simp [isValid, first, last, one, most]

theorem dayNumber_ofDayNumber (n : Int) : (ofDayNumber n).dayNumber = n := (ofDayNumber_spec n).1

theorem isValid_ofDayNumber (n : Int) : (ofDayNumber n).isValid := (ofDayNumber_spec n).2

theorem small_of_isValid {d : Date} (h : d.isValid) : d.month < 100 ∧ d.day < 100 := by
  simp only [isValid, Bool.and_eq_true, decide_eq_true_eq] at h
  obtain ⟨⟨⟨-, month⟩, -⟩, day⟩ := h
  have short : daysInMonth d.year d.month ≤ 31 := by
    unfold daysInMonth
    repeat' split
    all_goals decide
  omega

end Date

end Wordhoard.Time
