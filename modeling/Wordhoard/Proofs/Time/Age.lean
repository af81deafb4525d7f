import Wordhoard.Proofs.Time.RoundTrip

/-! Ages in whole days. They follow a clock that tells a leap second at the end of a day as the first
second of the next day. Main statement: of two instants the earlier one is at least as many days ago at
every time, unless that clock tells it as the later one. -/
namespace Wordhoard.Time

theorem le_tdiv_iff {k x d : Int} (pos : 0 < d) :
    k ≤ x.tdiv d ↔ (0 < k → k * d ≤ x) ∧ (k ≤ 0 → (k - 1) * d < x) := by
  rcases Int.lt_or_le x 0 with neg | nonneg
  · have opposite : x.tdiv d = -(-x / d) := by
      rw [← Int.tdiv_eq_ediv_of_nonneg (by omega), Int.neg_tdiv, Int.neg_neg]
    have below : -x / d ≤ -k ↔ (k - 1) * d < x := by
      rw [← Int.lt_add_one_iff, Int.ediv_lt_iff_lt_mul pos, Int.add_mul, Int.neg_mul, Int.sub_mul]
      omega
    have nonneg := Int.ediv_nonneg (show 0 ≤ -x by omega) pos.le
    constructor
    · intro h
      refine ⟨fun positive => by omega, fun _ => below.1 (by omega)⟩
    · rintro ⟨positive, h⟩
      rcases Int.lt_or_le 0 k with h' | h'
      · have := Int.mul_pos h' pos
        have := positive h'
        omega
      · have := below.2 (h h')
        omega
  · rw [Int.tdiv_eq_ediv_of_nonneg nonneg, Int.le_ediv_iff_mul_le pos]
    constructor
    · intro h
      refine ⟨fun _ => h, fun _ => ?_⟩
      rw [Int.sub_mul]
      omega
    · rintro ⟨h, -⟩
      rcases Int.lt_or_le 0 k with h' | h'
      · exact h h'
      · exact Int.le_trans (Int.mul_nonpos_of_nonpos_of_nonneg h' pos.le) nonneg

namespace Instant

variable {now a b c : Instant} {k : Int}

theorem atMost_iff : a.atMost b ↔ a.day < b.day ∨
    a.day = b.day ∧ (a.second < b.second ∨ a.second = b.second ∧ a.nano ≤ b.nano) := by
  simp only [atMost, before, Bool.not_eq_true', Bool.or_eq_false_iff, Bool.and_eq_false_iff,
    decide_eq_false_iff_not, beq_eq_false_iff_ne]
  omega

theorem atMost_trans (h : a.atMost b) (h' : b.atMost c) : a.atMost c := by
  rw [atMost_iff] at h h' ⊢
  omega

def carried (t : Instant) : Instant :=
  if t.second = 86399 ∧ billion ≤ t.nano then ⟨t.day + 1, 0, t.nano - billion⟩ else t

theorem carried_cases (t : Instant) :
    (t.second = 86399 ∧ billion ≤ t.nano ∧ t.carried = ⟨t.day + 1, 0, t.nano - billion⟩) ∨
      ¬ (t.second = 86399 ∧ billion ≤ t.nano) ∧ t.carried = t := by
  unfold carried
  grind

def daysBack (t : Instant) (k : Int) : Instant := { t with day := t.day - k }

theorem atMost_daysBack : a.atMost (b.daysBack (-k)) ↔ (a.daysBack k).atMost b := by
  simp only [atMost_iff, daysBack]
  omega

def dayLength : Int := 86400 * billion

theorem clockSeconds_cases (a b : Instant) :
    (b.second < a.second ∧ billion ≤ b.nano ∧ a.clockSeconds b = a.second - b.second + 1) ∨
      (a.second < b.second ∧ billion ≤ a.nano ∧ a.clockSeconds b = a.second - b.second - 1) ∨
      (¬ (b.second < a.second ∧ billion ≤ b.nano) ∧ ¬ (a.second < b.second ∧ billion ≤ a.nano) ∧
        a.clockSeconds b = a.second - b.second) := by
  unfold clockSeconds
  grind

theorem since_comm (a b : Instant) : a.since b = -b.since a := by
  have forth := clockSeconds_cases a b
  have back := clockSeconds_cases b a
  simp only [since, billion] at *
  omega

/-- So many days have passed just if the clock showed that instant at least so long ago. -/
theorem le_since_iff (valid : now.isValid) (valid' : a.isValid) :
    k * dayLength ≤ now.since a ↔ a.carried.atMost (now.carried.daysBack k) := by
  obtain ⟨-, second, nano⟩ := isValid_iff.1 valid
  obtain ⟨-, second', nano'⟩ := isValid_iff.1 valid'
  have seconds := clockSeconds_cases now a
  rw [atMost_iff]
  rcases carried_cases a with ⟨last, leap, told⟩ | ⟨plain, told⟩ <;>
    rcases carried_cases now with ⟨last', leap', told'⟩ | ⟨plain', told'⟩ <;>
    simp only [told, told', daysBack, since, dayLength, billion, Nat.lt_irrefl, true_and,
      false_or] at * <;>
    omega

theorem lt_since_iff (valid : now.isValid) (valid' : a.isValid) :
    k * dayLength < now.since a ↔ ¬ (now.carried.daysBack k).atMost a.carried := by
  rw [← atMost_daysBack, ← le_since_iff valid' valid, since_comm, Int.neg_mul]
  omega

theorem le_daysSince_iff (valid : now.isValid) (valid' : a.isValid) : k ≤ now.daysSince a ↔
    (0 < k → a.carried.atMost (now.carried.daysBack k)) ∧
      (k ≤ 0 → ¬ (now.carried.daysBack (k - 1)).atMost a.carried) := by
  rw [← le_since_iff valid valid', ← lt_since_iff valid valid']
  exact le_tdiv_iff (by decide)

theorem daysSince_le_of_carried (valid : now.isValid) (older : a.isValid) (newer : b.isValid)
    (h : a.carried.atMost b.carried) : now.daysSince b ≤ now.daysSince a := by
  obtain ⟨past, future⟩ := (le_daysSince_iff valid newer).1 (Int.le_refl _)
  refine (le_daysSince_iff valid older).2 ⟨fun positive => ?_, fun nonpos reached => ?_⟩
  · exact atMost_trans h (past positive)
  · exact future nonpos (atMost_trans reached h)

/-- The first instant lies in the leap second that ends a day, and further into it than the second
instant into the next day. -/
structure Overtakes (a b : Instant) : Prop where
  last : a.second = 86399
  next : b.day = a.day + 1
  first : b.second = 0
  further : billion + b.nano < a.nano

theorem overtakes_iff : a.Overtakes b ↔
    a.second = 86399 ∧ b.day = a.day + 1 ∧ b.second = 0 ∧ billion + b.nano < a.nano :=
  ⟨fun ⟨last, next, first, further⟩ => ⟨last, next, first, further⟩,
    fun ⟨last, next, first, further⟩ => ⟨last, next, first, further⟩⟩

instance : Decidable (a.Overtakes b) := decidable_of_iff _ overtakes_iff.symm

theorem carried_of_not_overtakes (valid : b.isValid) (h : a.atMost b) (fair : ¬ a.Overtakes b) :
    a.carried.atMost b.carried := by
  obtain ⟨-, second, -⟩ := isValid_iff.1 valid
  rw [overtakes_iff] at fair
  rw [atMost_iff] at h ⊢
  rcases carried_cases a with ⟨last, leap, told⟩ | ⟨plain, told⟩ <;>
    rcases carried_cases b with ⟨last', leap', told'⟩ | ⟨plain', told'⟩ <;>
    simp only [told, told', Nat.lt_irrefl, true_and, false_or] at * <;>
    omega

/-- The same time of day as the leap second is told as, on the day that it ends. -/
def dayBefore (a : Instant) : Instant := ⟨a.day, 0, a.nano - billion⟩

theorem isValid_dayBefore (valid : a.isValid) : a.dayBefore.isValid := by
  obtain ⟨days, -, nano⟩ := isValid_iff.1 valid
  refine isValid_iff.2 ⟨days, by simp [dayBefore], .inl ?_⟩
  simp only [dayBefore, billion] at *
  omega

/-- A day before the clock tells the leap second, that one is a day ahead, and the later instant is
not. -/
theorem daysSince_lt_of_overtakes (older : a.isValid) (newer : b.isValid) (h : a.Overtakes b) :
    a.dayBefore.daysSince a < a.dayBefore.daysSince b := by
  have valid := isValid_dayBefore older
  obtain ⟨last, next, first, further⟩ := h
  have told : a.carried = ⟨a.day + 1, 0, a.nano - billion⟩ := if_pos ⟨last, by omega⟩
  have told' : b.carried = b := if_neg (by omega)
  have here : a.dayBefore.carried = a.dayBefore := if_neg (by simp [dayBefore])
  -- The clock shows the leap second later than a day from here, and the other instant not.
  have ahead : ¬ 0 ≤ a.dayBefore.daysSince a := by
    rw [le_daysSince_iff valid older, told, here]
    simp [atMost_iff, daysBack, dayBefore]
  have near : 0 ≤ a.dayBefore.daysSince b := by
    rw [le_daysSince_iff valid newer, told', here]
    simp only [atMost_iff, daysBack, dayBefore]
    omega
  omega

/-- Of two instants the earlier one is at least as many days ago at every time, unless it overtakes the
later one. -/
theorem daysSince_le_iff (older : a.isValid) (newer : b.isValid) (h : a.atMost b) :
    (∀ now : Instant, now.isValid → now.daysSince b ≤ now.daysSince a) ↔ ¬ a.Overtakes b := by
  constructor
  · intro ages overtaken
    have less := daysSince_lt_of_overtakes older newer overtaken
    exact absurd (ages _ (isValid_dayBefore older)) (Int.not_le.2 less)
  · intro fair now valid
    exact daysSince_le_of_carried valid older newer (carried_of_not_overtakes newer h fair)

end Instant

end Wordhoard.Time
