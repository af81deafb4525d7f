import Mathlib.Data.List.TakeWhile
import Wordhoard.Proofs.Text.Digits
import Wordhoard.Proofs.Time.Calendar
import Wordhoard.Time.Text

/-! Times and their texts. Main statement: the times that can be read are the valid ones, and each of
them is read from its own text, to the nanosecond. -/
namespace Wordhoard.Time

open Text (isDigit_of_mem_repr repr_ne_nil decimal_repr span_digits mem_digits)

variable {s rest : List Char}

theorem toList_padded (width n : Nat) : (padded width n).toList =
    List.replicate (width - n.repr.length) '0' ++ n.repr.toList := by
  rw [padded, String.toList_append, String.toList_ofList]
  rfl

theorem isDigit_padded (width n : Nat) : ∀ c ∈ (padded width n).toList, c.isDigit := by
  intro c mem
  rw [toList_padded] at mem
  rcases List.mem_append.1 mem with zero | digit
  · rw [(List.mem_replicate.1 zero).2]
    rfl
  · exact isDigit_of_mem_repr digit

theorem padded_ne_nil (width n : Nat) : (padded width n).toList ≠ [] := by
  rw [toList_padded]
  exact List.append_ne_nil_of_right_ne_nil _ (repr_ne_nil n)

theorem decimal_zeros (count : Nat) (digits : List Char) :
    Text.decimal (List.replicate count '0' ++ digits) = Text.decimal digits := by
  induction count with
  | zero => rfl
  | succ count ih => exact ih

theorem decimal_padded (width n : Nat) : Text.decimal (padded width n).toList = n := by
  rw [toList_padded, decimal_zeros, decimal_repr]

theorem length_padded {width n : Nat} (wide : 0 < width) (small : n < 10 ^ width) :
    (padded width n).toList.length = width := by
  have short : n.repr.length ≤ width := Nat.repr_length n width wide small
  rw [toList_padded, List.length_append, List.length_replicate, String.length_toList]
  omega

theorem skipBlanks_digit {c : Char} (h : c.isDigit) : skipBlanks (c :: s) = c :: s := by
  have all : "0123456789".toList.all (fun c => !Text.isBlank c) = true := by decide
  have visible := List.all_eq_true.1 all c (mem_digits h)
  exact List.dropWhile_cons_of_neg (by simpa using visible)

theorem skipBlanks_padded (width n : Nat) :
    skipBlanks ((padded width n).toList ++ rest) = (padded width n).toList ++ rest := by
  cases chars : (padded width n).toList with
  | nil => exact absurd chars (padded_ne_nil width n)
  | cons c others =>
    exact skipBlanks_digit (isDigit_padded width n c (by rw [chars]; exact List.mem_cons_self))

theorem readNumber_padded {width n : Nat} (wide : 0 < width) (small : n < 10 ^ width) :
    readNumber width ((padded width n).toList ++ rest) = some (n, rest) := by
  have length := length_padded wide small
  have taken : ((padded width n).toList ++ rest).take width = (padded width n).toList :=
    List.take_left' length
  have digits : (padded width n).toList.takeWhile Char.isDigit = (padded width n).toList :=
    List.takeWhile_eq_self_iff.2 (isDigit_padded width n)
  have nonempty : (padded width n).toList.isEmpty = false :=
    List.isEmpty_eq_false_iff.2 (padded_ne_nil width n)
  simp only [readNumber, skipBlanks_padded, taken, digits, nonempty, decimal_padded,
    List.drop_left]
  rfl

theorem expect_cons (c : Char) : Text.expect [c] (c :: rest) = some ((), rest) :=
  if_pos rfl

theorem readMark_cons {c : Char} (h : Text.isBlank c = false) :
    readMark c (c :: rest) = some ((), rest) := by
  have visible : skipBlanks (c :: rest) = c :: rest :=
    List.dropWhile_cons_of_neg (by rw [h]; exact Bool.false_ne_true)
  rw [readMark, visible, expect_cons]

theorem span_padded (width n : Nat) (h : ∀ c ∈ rest.head?, c.isDigit = false) :
    ((padded width n).toList ++ rest).span Char.isDigit = ((padded width n).toList, rest) :=
  span_digits (isDigit_padded width n) h

theorem toList_minus : "-".toList = ['-'] := rfl

theorem toList_plus : "+".toList = ['+'] := rfl

theorem toList_point : ".".toList = ['.'] := rfl

theorem exists_cons_padded (width n : Nat) :
    ∃ c others, (padded width n).toList = c :: others ∧ c.isDigit := by
  cases chars : (padded width n).toList with
  | nil => exact absurd chars (padded_ne_nil width n)
  | cons c others =>
    exact ⟨c, others, rfl, isDigit_padded width n c (by rw [chars]; exact List.mem_cons_self)⟩

theorem readYear_minus (n : Nat) (h : ∀ c ∈ rest.head?, c.isDigit = false) :
    readYear ('-' :: ((padded 4 n).toList ++ rest)) = some (-(n : Int), rest) := by
  have sign (s : List Char) : skipBlanks ('-' :: s) = '-' :: s := rfl
  have value := decimal_padded 4 n
  have span := span_padded 4 n h
  obtain ⟨c, others, chars, -⟩ := exists_cons_padded 4 n
  rw [chars] at span value ⊢
  simp only [readYear, sign, span, value, Option.map_some]

theorem readYear_plus (n : Nat) (h : ∀ c ∈ rest.head?, c.isDigit = false) :
    readYear ('+' :: ((padded 4 n).toList ++ rest)) = some ((n : Int), rest) := by
  have sign (s : List Char) : skipBlanks ('+' :: s) = '+' :: s := rfl
  have value := decimal_padded 4 n
  have span := span_padded 4 n h
  obtain ⟨c, others, chars, -⟩ := exists_cons_padded 4 n
  rw [chars] at span value ⊢
  simp only [readYear, sign, span, value, Option.map_some]

theorem readYear_unsigned {n : Nat} (small : n < 10000) :
    readYear ((padded 4 n).toList ++ rest) = some ((n : Int), rest) := by
  have read := @readNumber_padded rest 4 n (by decide) small
  obtain ⟨c, others, chars, digit⟩ := exists_cons_padded 4 n
  rw [chars, List.cons_append] at read ⊢
  unfold readYear
  rw [skipBlanks_digit digit]
  split
  · rename_i same
    cases same
    cases digit
  · rename_i same
    cases same
    cases digit
  · rw [read]
    rfl

theorem readYear_yearText (year : Int) (h : ∀ c ∈ rest.head?, c.isDigit = false) :
    readYear ((yearText year).toList ++ rest) = some (year, rest) := by
  unfold yearText
  split
  · rename_i negative
    rw [String.toList_append, toList_minus, List.append_assoc, List.singleton_append,
      readYear_minus year.natAbs h, show -(year.natAbs : Int) = year by omega]
  split
  · rename_i large
    rw [String.toList_append, toList_plus, List.append_assoc, List.singleton_append,
      readYear_plus year.natAbs h, show (year.natAbs : Int) = year by omega]
  · rename_i positive small
    rw [readYear_unsigned (by omega), show (year.natAbs : Int) = year by omega]

theorem readDate_text (d : Date) (month : d.month < 100) (day : d.day < 100) :
    readDate (d.text.toList ++ rest) = some (d, rest) := by
  have dash (s : List Char) : readMark '-' ("-".toList ++ s) = some ((), s) := readMark_cons rfl
  have stops (s : List Char) : ∀ c ∈ ("-".toList ++ s).head?, c.isDigit = false := by
    intro c first
    cases first
    rfl
  simp only [readDate, Date.text, String.toList_append, List.append_assoc,
    readYear_yearText d.year (stops _), dash, readNumber_padded (show 0 < 2 by decide) month,
    readNumber_padded (show 0 < 2 by decide) day, Option.bind_eq_bind, Option.bind_some]
  rfl

theorem readFraction_padded {width n : Nat} (wide : 0 < width) (short : width ≤ 9)
    (small : n < 10 ^ width) (ends : ∀ c ∈ rest.head?, c.isDigit = false) :
    readFraction ('.' :: ((padded width n).toList ++ rest)) =
      some (n * 10 ^ (9 - width), rest) := by
  have value := decimal_padded width n
  have span := span_padded width n ends
  have length := length_padded wide small
  obtain ⟨c, others, chars, -⟩ := exists_cons_padded width n
  rw [chars] at span value length ⊢
  have used : (c :: others).take 9 = c :: others := List.take_of_length_le (by omega)
  simp only [readFraction, span, used, value, length]
  rfl

theorem readFraction_fractionText {nano : Nat} (h : nano < billion) :
    readFraction ((fractionText nano).toList ++ 'Z' :: rest) = some (nano, 'Z' :: rest) := by
  have ends : ∀ c ∈ ('Z' :: rest).head?, c.isDigit = false := by
    intro c first
    cases first
    rfl
  simp only [billion] at h
  unfold fractionText
  split
  · rename_i zero
    subst zero
    rfl
  split
  · rw [String.toList_append, toList_point, List.append_assoc, List.singleton_append,
      readFraction_padded (by decide) (by decide) (by omega) ends,
      show nano / 1000000 * 10 ^ (9 - 3) = nano by omega]
  split
  · rw [String.toList_append, toList_point, List.append_assoc, List.singleton_append,
      readFraction_padded (by decide) (by decide) (by omega) ends,
      show nano / 1000 * 10 ^ (9 - 6) = nano by omega]
  · rw [String.toList_append, toList_point, List.append_assoc, List.singleton_append,
      readFraction_padded (by decide) (by decide) (by omega) ends,
      show nano * 10 ^ (9 - 9) = nano by omega]

namespace Instant

variable {t : Instant}

theorem isValid_iff : t.isValid ↔ (firstDay ≤ t.day ∧ t.day ≤ lastDay) ∧ t.second < 86400 ∧
    (t.nano < billion ∨ (t.nano < 2 * billion ∧ t.second % 60 = 59)) := by
  simp [isValid, and_assoc]

theorem secondOfMinute_cases (h : t.isValid) :
    (t.secondOfMinute = t.second % 60 ∧ t.nano % billion = t.nano) ∨
      t.secondOfMinute = 60 ∧ t.second % 60 = 59 ∧ t.nano % billion + billion = t.nano := by
  obtain ⟨-, -, part⟩ := isValid_iff.1 h
  simp only [secondOfMinute, billion] at *
  omega

theorem ofClock_self (h : t.isValid) :
    ofClock t.date t.hour t.minute t.secondOfMinute (t.nano % billion) 0 = t := by
  have day : t.date.dayNumber = t.day := Date.dayNumber_ofDayNumber t.day
  obtain ⟨-, clock, -⟩ := isValid_iff.1 h
  have parts : t.second / 3600 * 3600 + t.second / 60 % 60 * 60 + t.second % 60 = t.second := by
    omega
  show _ = Instant.mk t.day t.second t.nano
  rcases secondOfMinute_cases h with ⟨second, nano⟩ | ⟨second, last, nano⟩
  · have plain : t.second % 60 ≠ 60 := by omega
    simp only [ofClock, day, hour, minute, second, nano, if_neg plain, parts, Instant.mk.injEq]
    refine ⟨by omega, by omega, trivial⟩
  · rw [last] at parts
    simp only [ofClock, day, hour, minute, second, nano, if_true, parts, Instant.mk.injEq]
    refine ⟨by omega, by omega, trivial⟩

theorem small_parts (h : t.isValid) :
    t.hour < 24 ∧ t.minute < 60 ∧ t.secondOfMinute ≤ 60 ∧ t.nano % billion < billion := by
  obtain ⟨-, clock, -⟩ := isValid_iff.1 h
  have second := secondOfMinute_cases h
  have nano := Nat.mod_lt t.nano (show 0 < billion by decide)
  simp only [hour, minute]
  omega

theorem readList_text (h : t.isValid) : readList t.text.toList = some t := by
  obtain ⟨hour, minute, second, nano⟩ := small_parts h
  have valid := Date.isValid_ofDayNumber t.day
  obtain ⟨month, day⟩ := Date.small_of_isValid valid
  have colon (s : List Char) : readMark ':' (":".toList ++ s) = some ((), s) := readMark_cons rfl
  have dateEnd (s : List Char) : readDateEnd ("T".toList ++ s) = some ((), s) := rfl
  have zone : "Z".toList = ['Z'] := rfl
  have offset : readOffset (skipBlanks ['Z']) = some (0, []) := rfl
  have two : 0 < 2 := by decide
  simp only [readList, text, String.toList_append, List.append_assoc]
  rw [date, readDate_text _ month day]
  simp only [Option.bind_eq_bind, Option.bind_some, dateEnd, colon, zone, offset,
    readNumber_padded two (show t.hour < 10 ^ 2 by omega),
    readNumber_padded two (show t.minute < 10 ^ 2 by omega),
    readNumber_padded two (show t.secondOfMinute < 10 ^ 2 by omega),
    readFraction_fractionText nano]
  have self : ofClock (Date.ofDayNumber t.day) t.hour t.minute t.secondOfMinute
      (t.nano % billion) 0 = t := ofClock_self h
  rw [self, if_pos]
  simp [h, hour, minute, second, valid, (isValid_iff.1 h).1, Date.dayNumber_ofDayNumber, skipBlanks]

theorem read?_text (h : t.isValid) : read? t.text = some t := readList_text h

theorem isValid_of_read? {s : String} (h : read? s = some t) : t.isValid := by
  simp only [read?, readList, Option.bind_eq_bind, Option.bind_eq_some_iff] at h
  obtain ⟨date, -, -, -, hour, -, -, -, minute, -, -, -, second, -, nano, -, ahead, -, h⟩ := h
  split at h
  · rename_i checks
    cases h
    simp only [Bool.and_eq_true] at checks
    exact checks.1.2
  · cases h

theorem exists_read?_iff : (∃ s, read? s = some t) ↔ t.isValid :=
  ⟨fun ⟨_, h⟩ => isValid_of_read? h, fun h => ⟨t.text, read?_text h⟩⟩

end Instant

end Wordhoard.Time
